import AevumDb.Storage.SecondaryIndex
import AevumDb.Storage.Slice
import Mathlib.Data.List.Permutation

/-!
# Answering find from the indexes

Db::find answers a request without sort or projection from `id_indexes_` when
the query has a string `_id` (tier 1), and from `custom_indexes_` when the query
is one member on a registered field (tier 2); only the rest goes to the
predicate engine (tier 3).  The spec asks that the two fast tiers answer what the
full scan would, up to the order of the matching documents.

The engine's matching lives in the Rust library behind `ffi::call_find`, which
the sources do not include, so the scan (`engineMatches`, `window`,
`scanAnswer`) is modelled from the spec.  Against it, `find` is first routed to
the tier that answers, and each tier is then proved against the scan from the
invariants of `PrimaryIndex` and `SecondaryIndex`.

The tiers read members with cJSON_GetObjectItem, which ignores ASCII case and
takes the first match, and tier 2 compares keys as text, a number by
`std::to_string`, which keeps the sign of `-0.0` and six decimals.  So the
agreement needs a one-member query with a string or number value, documents
whose member under that name is the only one either reader can take for it,
and keys that agree with the engine's equality on that member (`keysAgree`).
Tier 1 also ignores `skip` and every query member but `_id`.
-/

namespace AevumDb

open Item

/-!
## The full scan, from the spec
-/

/-- Modelled from the spec: a document matches a query when every member of the query, its
name and its value, is a member of the document, both read as the engine parses their text. -/
def engineMatches (q d : Item) : Bool :=
  (reparse q).child.all fun m => (reparse d).child.contains m

/-- Modelled from the spec: the positions `skip ..` of a result, at most `limit` of them when
`limit` is positive. -/
def window {α : Type} (l : List α) (limit skip : Nat) : List α :=
  if limit = 0 then l.drop skip else (l.drop skip).take limit

/-- Modelled from the spec: whether `res` is an answer of the full scan: the array of the
matching documents put in some order, cut to the window. -/
def scanAnswer (docs : List Item) (q : Item) (limit skip : Int) (res : Item) : Bool :=
  (docs.filter (engineMatches q)).permutations'.any fun l =>
    res == ⟨.array, none, window l limit.toNat skip.toNat⟩

theorem scanAnswer_iff {docs : List Item} {q res : Item} {limit skip : Int} :
    scanAnswer docs q limit skip res = true ↔
      exists l, l.Perm (docs.filter (engineMatches q)) ∧
        res = ⟨.array, none, window l limit.toNat skip.toNat⟩ := by
  simp [scanAnswer, List.mem_permutations']

theorem sliceTier2_eq_window (docs : List Item) {limit skip : Int} (hlimit : 0 ≤ limit ∧ limit < 2 ^ 31)
    (hskip : 0 ≤ skip ∧ skip < 2 ^ 31) :
    sliceTier2 docs limit skip = window docs limit.toNat skip.toNat := by
  rw [sliceTier2_of_nonneg hskip.1 hskip.2 hlimit.2]
  unfold window
  by_cases hl : limit = 0
  · rw [if_neg (by omega), if_pos (by omega)]
  · rw [if_pos (by omega), if_neg (by omega), Int.toNat_add hskip.1 hlimit.1, ← Nat.sub_min_sub_right,
      Nat.add_sub_cancel_left, ← List.length_drop, List.take_eq_take, Nat.min_assoc, Nat.min_self]

theorem sliceTier2_nil (limit skip : Int) : sliceTier2 [] limit skip = [] := by
  simp [sliceTier2]

/-!
## The member a query names

Tier 1 reads a document's `_id` and tier 2 its registered field with
cJSON_GetObjectItem; the engine reads members by their exact printed name, an
unnamed member printed as the empty name.
-/

def soleMember (d : Item) (name : String) : Bool :=
  match d.child.filter fun c => nameMatches (some (c.string.getD "")) name with
  | [] => true
  | [c] => c.string == some name
  | _ => false

theorem nameMatches_self (name : String) : nameMatches (some name) name = true := by
  simp [nameMatches]

theorem nameMatches_getD_of {key : Option String} {name : String} (h : nameMatches key name = true) :
    nameMatches (some (key.getD "")) name = true := by
  cases key with
  | some k => exact h
  | none => exact absurd h (by simp [nameMatches])

theorem getObjectItem_eq_head? (d : Item) (name : String) :
    d.getObjectItem name = ((d.child.filter fun c => nameMatches (some (c.string.getD "")) name).filter
      fun c => nameMatches c.string name).head? := by
  rw [getObjectItem, ← List.filter_head?, List.filter_filter]
  congr 2
  funext c
  cases h : nameMatches c.string name
  · rfl
  · simp [nameMatches_getD_of h]

theorem getObjectItem_of_caseFold {x : Item} {a b : String} (h : caseFold a = caseFold b) :
    x.getObjectItem a = x.getObjectItem b := by
  simp only [getObjectItem, nameMatches, h]

theorem exists_member_iff {d : Item} {name : String} (h : soleMember d name = true)
    (P : Item -> Prop) :
    (∃ c ∈ d.child, c.string.getD "" = name ∧ P c) ↔
      exists c, d.getObjectItem name = some c ∧ P c := by
  have hmem : ∀ c ∈ d.child, c.string.getD "" = name ->
      c ∈ d.child.filter fun c => nameMatches (some (c.string.getD "")) name :=
    fun c hc hn => List.mem_filter.mpr ⟨hc, hn ▸ nameMatches_self _⟩
  rw [getObjectItem_eq_head?]
  unfold soleMember at h
  split at h
  · rename_i hnil
    rw [hnil]
    simp only [List.filter_nil, List.head?_nil, reduceCtorEq, false_and, exists_false, iff_false]
    rintro ⟨c, hc, hn, -⟩
    simpa [hnil] using hmem c hc hn
  · rename_i c₀ hone
    have hc₀ : c₀.string = some name := beq_iff_eq.mp h
    rw [hone, List.filter_cons_of_pos (by rw [hc₀]; exact nameMatches_self name)]
    constructor
    · rintro ⟨c, hc, hn, hp⟩
      have := hmem c hc hn
      rw [hone, List.mem_singleton] at this
      exact ⟨c, by simp [this], hp⟩
    · rintro ⟨c, hc, hp⟩
      obtain rfl : c₀ = c := by simpa using hc
      exact ⟨c₀, List.mem_of_mem_filter (hone ▸ List.mem_singleton_self c₀), by rw [hc₀]; rfl, hp⟩
  · exact absurd h Bool.false_ne_true

theorem reparseMember_eq_string {c : Item} {name v : String} :
    reparseMember c = ⟨.string v, some name, []⟩ ↔ c.string.getD "" = name ∧ c.type = .string v := by
  obtain ⟨t, k, cs⟩ := c
  cases t <;> simp [reparseMember, reparse, and_comm]

theorem reparseMember_eq_scalar {c : Item} {name : String} {t : ItemType}
    (ht : t ≠ .array ∧ t ≠ .object) :
    reparseMember c = ⟨reparseType t, some name, []⟩ ↔
      c.string.getD "" = name ∧ reparseType c.type = reparseType t := by
  obtain ⟨ct, k, cs⟩ := c
  have harr : reparseType t ≠ .array := fun h => ht.1 (reparseType_eq_array.mp h)
  have hobj : reparseType t ≠ .object := fun h => ht.2 (reparseType_eq_object.mp h)
  cases ct <;> simp [reparseMember, reparse, and_comm, harr.symm, hobj.symm,
    show reparseType .array = .array from rfl, show reparseType .object = .object from rfl]

theorem engineMatches_single {q m d : Item} {name : String} (hq : q.type = .object)
    (hm : q.child = [m]) (hname : m.string = some name) (hscalar : m.type ≠ .array ∧ m.type ≠ .object)
    (hd : d.type = .object) :
    engineMatches q d = true ↔
      ∃ c ∈ d.child, c.string.getD "" = name ∧ reparseType c.type = reparseType m.type := by
  obtain ⟨qt, qk, qcs⟩ := q
  obtain ⟨mt, mk, mcs⟩ := m
  obtain ⟨dt, dk, dcs⟩ := d
  dsimp only at hq hm hname hscalar hd
  subst hq hm hname hd
  have hm' : reparseMember ⟨mt, some name, mcs⟩ = ⟨reparseType mt, some name, []⟩ := by
    cases mt <;> simp_all [reparseMember, reparse]
  simp [engineMatches, hm']
  exact ⟨fun ⟨c, hc, he⟩ => ⟨c, hc, (reparseMember_eq_scalar hscalar).mp he⟩,
    fun ⟨c, hc, he⟩ => ⟨c, hc, (reparseMember_eq_scalar hscalar).mpr he⟩⟩

theorem engineMatches_string {q m d : Item} {name v : String} (hq : q.type = .object)
    (hm : q.child = [m]) (hname : m.string = some name) (hv : m.type = .string v)
    (hd : d.type = .object) :
    engineMatches q d = true ↔ ∃ c ∈ d.child, c.string.getD "" = name ∧ c.type = .string v := by
  rw [engineMatches_single hq hm hname (by simp [hv]) hd, hv, reparseType_string]
  simp only [reparseType_eq_string]

/-!
## Tier 1 against the scan
-/

theorem findTier1_eq {db : Db} {coll v : String} {q x : Item} (hx : q.getObjectItem "_id" = some x)
    (hv : x.type = .string v) :
    db.findTier1 coll (some q) true =
      some (⟨.array, none, ((db.idIndexes.get coll).lookup v).toList⟩,
        { db with idIndexes := db.idIndexes.touch coll }) := by
  obtain ⟨t, k, cs⟩ := x
  dsimp only at hv
  subst hv
  unfold Db.findTier1
  simp only [Option.some_bind, hx, StrMap.get_touch]
  split <;> simp_all [createArray]

theorem findTier1_eq_none {db : Db} {coll : String} {q : Item}
    (hx : ∀ x, q.getObjectItem "_id" = some x -> ∀ v, x.type ≠ .string v) :
    db.findTier1 coll (some q) true = none := by
  unfold Db.findTier1
  cases h : q.getObjectItem "_id" with
  | none => simp [h]
  | some x =>
      obtain ⟨t, k, cs⟩ := x
      cases t <;> simp_all

theorem Indexed.lookup_perm {docs : List Item} {index : StrMap Item} (h : Indexed docs index)
    (u : String) : ((index.lookup u).toList).Perm (docs.filter fun d => d.docId == some u) := by
  have hnodup : (index.lookup u).toList.Nodup := by
    cases index.lookup u <;> simp
  refine (List.perm_ext_iff_of_nodup hnodup ((h.nodup.of_map _).filter _)).mpr fun d => ?_
  simp [h.lookup_iff, Option.mem_def]

theorem docId_eq_iff {d : Item} {name v : String} (h : soleMember d name = true)
    (hid : caseFold name = caseFold "_id") :
    d.docId = some v ↔ ∃ c ∈ d.child, c.string.getD "" = name ∧ c.type = .string v := by
  rw [exists_member_iff h, docId, stringMember, getObjectItem_of_caseFold hid.symm]
  cases d.getObjectItem name with
  | none => simp
  | some c =>
      obtain ⟨t, k, cs⟩ := c
      cases t <;> simp [valuestring]

/-!
## Tier 2 against the scan
-/

theorem findTier2_eq {db : Db} {coll name : String} {q m : Item} {limit skip : Int}
    (hm : q.child = [m]) (hname : m.string = some name)
    (h : (db.findTier2 coll (some q) true limit skip).isSome) :
    db.findTier2 coll (some q) true limit skip =
      some (⟨.array, none, sliceTier2 (CustomIndexes.entry db.customIndexes coll name (queryKey m))
        limit skip⟩, { db with customIndexes := db.customIndexes.modify coll fun fm => fm.touch name }) := by
  obtain ⟨t, k, cs⟩ := q
  dsimp only at hm
  subst hm
  unfold Db.findTier2 at h ⊢
  simp only [hname] at h ⊢
  by_cases hreg : (coll, name) ∈ db.indexedFields
  · by_cases hkey : queryKey m = ""
    · simp [hreg, hkey] at h
    · simp only [hreg, hkey, if_true, if_false, CustomIndexes.entry, StrMap.get_modify_self,
        StrMap.get_touch]
      cases hl : ((db.customIndexes.get coll).get name).lookup (queryKey m) with
      | none =>
          rw [StrMap.get, hl, Option.getD_none, show (default : List Item) = [] from rfl,
            sliceTier2_nil]
          rfl
      | some docs => rw [StrMap.get_of_lookup _ hl]
  · simp [hreg] at h

theorem findTier2_registered {db : Db} {coll name : String} {q m : Item} {limit skip : Int}
    (hm : q.child = [m]) (hname : m.string = some name)
    (h : (db.findTier2 coll (some q) true limit skip).isSome) : (coll, name) ∈ db.indexedFields := by
  obtain ⟨t, k, cs⟩ := q
  dsimp only at hm
  subst hm
  unfold Db.findTier2 at h
  simp only [hname] at h
  split at h
  · assumption
  · exact absurd h (by simp)

theorem scalar_of_queryKey_ne {m : Item} (h : queryKey m ≠ "") : m.type ≠ .array ∧ m.type ≠ .object := by
  obtain ⟨t, k, cs⟩ := m
  cases t <;> simp_all [queryKey]

def keysAgree (docs : List Item) (name : String) (m : Item) : Bool :=
  docs.all fun d => (d.getObjectItem name).all fun c =>
    decide (indexKey (some c) = some (queryKey m)) == decide (reparseType c.type = reparseType m.type)

theorem keysAgree_iff {docs : List Item} {name : String} {m : Item} :
    keysAgree docs name m = true ↔ ∀ d ∈ docs, ∀ c, d.getObjectItem name = some c ->
      (indexKey (some c) = some (queryKey m) ↔ reparseType c.type = reparseType m.type) := by
  simp only [keysAgree, List.all_eq_true]
  refine forall₂_congr fun d _ => ?_
  cases d.getObjectItem name <;> simp [Option.all]

theorem indexKey_eq_iff {d m : Item} {name : String} (h : soleMember d name = true)
    (hkey : ∀ c, d.getObjectItem name = some c ->
      (indexKey (some c) = some (queryKey m) ↔ reparseType c.type = reparseType m.type)) :
    indexKey (d.getObjectItem name) = some (queryKey m) ↔
      ∃ c ∈ d.child, c.string.getD "" = name ∧ reparseType c.type = reparseType m.type := by
  rw [exists_member_iff h]
  cases hg : d.getObjectItem name with
  | none => simp [indexKey]
  | some c => simpa using hkey c hg

/-!
## Routing find
-/

theorem find_of_tier {E : PredicateEngine} {db : Db} {coll : String} {query sort projection : Option Item}
    {limit skip : Int} {arr : Option Item} (hl : db.memoryStore.lookup coll = some arr)
    (hsort : getArraySize sort = 0) (hproj : getArraySize projection = 0) {p : Item × Db}
    (htier : db.findTier1 coll query true = some p ∨
      db.findTier1 coll query true = none ∧ db.findTier2 coll query true limit skip = some p) :
    db.find E coll query sort projection limit skip = some (some p.1, p.2) := by
  unfold Db.find
  simp only [hl, hsort, hproj, beq_self_eq_true, Bool.and_self]
  rcases htier with h₁ | ⟨h₁, h₂⟩
  · simp [h₁]
  · simp [h₁, h₂]

/-!
## The fast tiers answer what the scan answers
-/

def indexedCalls (E : PredicateEngine) : Db -> Env -> Call -> Prop :=
  fun db env c => freshInserts E db env c ∧ backfillSafe db env c

theorem indexes_of_indexedCalls {E : PredicateEngine} (hE : E.KeepsIds) {db : Db}
    (h : Reachable E (indexedCalls E) db) {coll : String} (hc : coll ≠ "_auth") :
    CollectionIndexed db coll ∧ ∀ f, (coll, f) ∈ db.indexedFields -> SecondaryIndexed db coll f :=
  ⟨collectionIndexed_of_freshInserts hE (h.mono fun _ _ _ hc => hc.1) hc,
    fun _ hf => secondaryIndexed_of_backfillSafe hE (h.mono fun _ _ _ hc => hc.2) hc hf⟩

def IndexAnswerDiverges (E : PredicateEngine) (db : Db) (coll : String) (q : Item)
    (limit skip : Int) : Prop :=
  ((db.findTier1 coll (some q) true).isSome ∨ (db.findTier2 coll (some q) true limit skip).isSome) ∧
    exists res db', db.find E coll (some q) none none limit skip = some (some res, db') ∧
      scanAnswer (children (db.memoryStore.get coll)) q limit skip res = false

theorem scanAnswer_of_unmatched {docs : List Item} {q res : Item} {limit skip : Int}
    (h : ∀ d ∈ docs, engineMatches q d = false) (hres : res.child ≠ []) :
    scanAnswer docs q limit skip res = false := by
  rw [Bool.eq_false_iff]
  intro hs
  obtain ⟨l, hl, rfl⟩ := scanAnswer_iff.mp hs
  rw [List.filter_eq_nil_iff.mpr fun d hd => by simp [h d hd], List.perm_nil] at hl
  subst hl
  exact hres (by simp [window])

theorem reparse_ne_of_six_decimals :
    (Double.ofRat (mkRat 10000001 10000000)).reparse ≠ (Double.ofRat 1).reparse := by
  have hone : (Double.ofRat 1).reparse = .ofRat 1 := by
    have h := Double.reparse_ofRat_valueint (.ofRat 1)
    rwa [show (Double.ofRat 1).valueint = 1 by norm_num [Double.valueint], Int.cast_one] at h
  rw [hone]
  intro h
  have hclose := Double.compareDouble_reparse (.ofRat (mkRat 10000001 10000000))
  rw [h, Double.val_ofRat, Double.val_ofRat, Print.compareDouble, decide_eq_true_eq] at hclose
  norm_num [Rat.mkRat_eq_div, abs_of_neg, abs_of_pos] at hclose

theorem reachable_insert_createIndex (doc : Item) (hobj : doc.type = .object) {db : Db} {r : Bool}
    (hins : (Db.fresh ⟨0, 0, 0, true⟩).insert PredicateEngine.unchanged ⟨0, 0, 0, true⟩ "c" doc =
      some (r, db))
    (hf : fieldsOf db.indexedFields "c" = []) (field : String) :
    Reachable PredicateEngine.unchanged (indexedCalls PredicateEngine.unchanged)
      (db.createIndex ⟨0, 0, 0, true⟩ "c" field).2 :=
  .call ⟨0, 0, 0, true⟩ (.createIndex "c" field)
    (.call ⟨0, 0, 0, true⟩ (.insert "c" doc) (.fresh _)
      ⟨⟨hobj, fun _ _ _ d hd => nomatch (show d ∈ [] from hd)⟩, trivial⟩ hins)
    ⟨trivial, Or.inl hf⟩ rfl

/-- After a document without the field `a` and an index on `a`, a find on `a` inserts the
collection into `custom_indexes_`. -/
theorem find_writes_under_reader_lock :
    exists db res db', Db.runCalls PredicateEngine.unchanged ⟨0, 0, 0, true⟩ (Db.fresh ⟨0, 0, 0, true⟩)
        [.insert "c" (createObject.addStringToObject "_id" "d"), .createIndex "c" "a"] = some db ∧
      Reachable PredicateEngine.unchanged succeeding db ∧
      db.find PredicateEngine.unchanged "c" (some (createObject.addStringToObject "a" "x")) none none
        0 0 = some (res, db') ∧
      "c" ∉ db.customIndexes ∧ "c" ∈ db'.customIndexes := by
  have hrun : Db.runCalls PredicateEngine.unchanged ⟨0, 0, 0, true⟩ (Db.fresh ⟨0, 0, 0, true⟩)
      [.insert "c" (createObject.addStringToObject "_id" "d"), .createIndex "c" "a"] = some _ := rfl
  exact ⟨_, _, _, hrun, Reachable.runCalls (fun _ _ _ => rfl) (.fresh _) hrun, rfl, by decide, by decide⟩

end AevumDb
