import AevumDb.Storage.Find

/-!
# Delete against the scan

Db::remove picks its targets in three tiers: the query's `_id` when the query
has one member and that member is a string (tier 1), the lists of
`custom_indexes_` when the query is one member on a registered field (tier 2),
and, when those found nothing, the engine's find with `{}` sort and projection
and no limit or skip (tier 3).  It then writes one tombstone per target that
the primary index holds and detaches that document.

Against the engine's matching, modelled from the spec as for find, remove
returns true exactly when a document matches and leaves exactly the documents
that do not, on a collection whose indexes are right and for a query the index
tiers read as the engine does; when its appends succeed it also logs one
tombstone per removed `_id` (`remove_matches_scan`).  The tiers break that on
the same queries as find's: a member `_ID`, a string equal to a number's `%f`
text (`-0.000000` for `-0.0`), a member `A` under the index on `a`; and
remove does not read the result of its appends, so a failed one leaves the
document deleted in memory and live in the log (`remove_diverges_from_scan`).
-/

namespace AevumDb

open Item

/-!
## The engine's scan, from the spec
-/

/-- Modelled from the spec: the engine's find, given a collection's text, a query's text, `{}`
sort and projection and no limit or skip, answers the matching documents, each once, in some
order. -/
def PredicateEngine.ScansExactly (E : PredicateEngine) : Prop :=
  ∀ (k : Option String) (docs : List Item) (q : Item), ∃ l : List Item, l.Perm (docs.filter (engineMatches q)) ∧
    E.find (reparse ⟨.array, k, docs⟩) (reparse q) createObject createObject 0 0 =
      some ⟨.array, none, l.map reparse⟩

/-- Modelled from the spec: an engine whose find answers the matching documents in their
order. -/
def PredicateEngine.scanning : PredicateEngine where
  validate _ _ := true
  count _ _ := 0
  find arr q _ _ _ _ := some ⟨.array, none, arr.child.filter (engineMatches q)⟩
  update arr _ _ := some arr

theorem engineMatches_reparse (q d : Item) : engineMatches (reparse q) (reparse d) = engineMatches q d := by
  simp only [engineMatches, reparse_reparse]

theorem PredicateEngine.scanning_scansExactly : PredicateEngine.scanning.ScansExactly :=
  fun _ docs q => ⟨docs.filter (engineMatches q), List.Perm.refl _, by
    simp only [PredicateEngine.scanning, reparse_array, List.filter_map, Function.comp_def,
      engineMatches_reparse]⟩

/-!
## The deletion loop
-/

namespace Db

variable {E : PredicateEngine} {env : Env} {db : Db} {coll : String}

theorem erase_eq_filter {docs : List Item} {index : StrMap Item} (h : Indexed docs index) {t : Item}
    {u : String} (ht : t ∈ docs) (hid : t.docId = some u) :
    docs.erase t = docs.filter fun d => d.docId != some u := by
  rw [(List.Nodup.of_map docId h.nodup).erase_eq_filter]
  refine List.filter_congr fun d hd => ?_
  by_cases hdt : d = t
  · simp [hdt, hid]
  · have hne : d.docId ≠ some u := fun hdu => hdt (h.eq_of_docId hd ht (hdu.trans hid.symm))
    rw [bne_iff_ne.mpr hdt, bne_iff_ne.mpr hne]

theorem removeOne_of_present (h : CollectionIndexed db coll) {u : String}
    (hu : ∃ d ∈ children (db.memoryStore.get coll), d.docId = some u) :
    children ((db.removeOne env coll u).memoryStore.get coll) =
      (children (db.memoryStore.get coll)).filter (fun d => d.docId != some u) ∧
    (env.ioOk = true -> Engine.logFrames (db.removeOne env coll u).storage coll =
      Engine.logFrames db.storage coll ++ [some (reparse (tombstone u))]) := by
  obtain ⟨t, ht, hid⟩ := hu
  have hl : (db.idIndexes.get coll).lookup u = some t := (h.indexed.lookup_iff u t).mpr ⟨ht, hid⟩
  rw [removeOne_eq, hl]
  refine ⟨?_, fun hok => by rw [hok, Engine.logFrames_append_self]⟩
  simp only [StrMap.get_modify_self, children_detachItemViaPointer]
  exact erase_eq_filter h.indexed ht hid

theorem foldl_removeOne_of_present (h : CollectionIndexed db coll) (hmem : coll ∈ db.memoryStore)
    {ids : List String} (hnodup : ids.Nodup)
    (hids : ∀ u ∈ ids, ∃ d ∈ children (db.memoryStore.get coll), d.docId = some u) :
    children ((ids.foldl (fun db u => db.removeOne env coll u) db).memoryStore.get coll) =
      (children (db.memoryStore.get coll)).filter (fun d => ids.all fun u => d.docId != some u) ∧
    (env.ioOk = true -> Engine.logFrames (ids.foldl (fun db u => db.removeOne env coll u) db).storage coll =
      Engine.logFrames db.storage coll ++ ids.map fun u => some (reparse (tombstone u))) := by
  induction ids generalizing db with
  | nil => simp
  | cons u ids ih =>
      obtain ⟨hnotin, hnodup⟩ := List.nodup_cons.mp hnodup
      obtain ⟨hchildren, hstorage⟩ := removeOne_of_present h (hids u (List.mem_cons_self u ids))
      have hrest : ∀ u' ∈ ids, ∃ d ∈ children ((db.removeOne env coll u).memoryStore.get coll),
          d.docId = some u' := by
        intro u' hu'
        obtain ⟨d, hd, hdid⟩ := hids u' (List.mem_cons_of_mem u hu')
        refine ⟨d, ?_, hdid⟩
        rw [hchildren, List.mem_filter]
        exact ⟨hd, by simpa [hdid] using fun (e : u' = u) => hnotin (e ▸ hu')⟩
      obtain ⟨ih₁, ih₂⟩ := ih (collectionIndexed_removeOne h hmem u) (mem_removeOne hmem u) hnodup hrest
      rw [List.foldl_cons, ih₁, hchildren, List.filter_filter]
      refine ⟨List.filter_congr fun d _ => ?_, fun hok => by rw [ih₂ hok, hstorage hok]; simp⟩
      rw [List.all_cons, Bool.and_comm]

/-!
## The targets
-/

def IndexSafe (db : Db) (coll : String) (q : Item) : Prop :=
  ∀ m name, q.child = [m] -> m.string = some name ->
    ((nameMatches (some name) "_id" = true ∧ ∃ v, m.type = .string v) ∨
      ((coll, name) ∈ db.indexedFields ∧ queryKey m ≠ "")) ->
    (∀ d ∈ children (db.memoryStore.get coll), soleMember d name = true) ∧
      keysAgree (children (db.memoryStore.get coll)) name m = true

variable {q : Item}

theorem getObjectItem_single {m : Item} (hm : q.child = [m]) (name : String) :
    q.getObjectItem name = if nameMatches m.string name then some m else none := by
  simp only [getObjectItem, hm, List.find?_cons, List.find?_nil]
  split <;> simp_all

section OneMember

variable {docs : List Item} {m : Item} {name : String} (hq : q.type = .object) (hm : q.child = [m])
  (hname : m.string = some name) (hobj : ∀ d ∈ docs, d.type = .object)
  (hsole : ∀ d ∈ docs, soleMember d name = true)
include hq hm hname hobj hsole

theorem filter_engineMatches_eq_docId {v : String} (hv : m.type = .string v)
    (hid : nameMatches (some name) "_id" = true) :
    docs.filter (engineMatches q) = docs.filter fun d => d.docId == some v :=
  List.filter_congr fun d hd => Bool.eq_iff_iff.mpr ((engineMatches_string hq hm hname hv (hobj d hd)).trans
    ((docId_eq_iff (hsole d hd) (beq_iff_eq.mp hid)).symm.trans beq_iff_eq.symm))

theorem filter_engineMatches_eq_indexKey (hkey : queryKey m ≠ "") (hkeys : keysAgree docs name m = true) :
    docs.filter (engineMatches q) = docs.filter fun d => indexKey (d.getObjectItem name) == some (queryKey m) :=
  List.filter_congr fun d hd => Bool.eq_iff_iff.mpr ((engineMatches_single hq hm hname
    (scalar_of_queryKey_ne hkey) (hobj d hd)).trans
    ((indexKey_eq_iff (hsole d hd) (keysAgree_iff.mp hkeys d hd)).symm.trans beq_iff_eq.symm))

end OneMember

theorem removeIndexed_perm (hprim : CollectionIndexed db coll)
    (hsec : ∀ f, (coll, f) ∈ db.indexedFields -> SecondaryIndexed db coll f)
    (hq : q.type = .object) (hsafe : IndexSafe db coll q) :
    (db.removeIndexed coll q).1 = [] ∨
      (db.removeIndexed coll q).1.Perm
        (((children (db.memoryStore.get coll)).filter (engineMatches q)).filterMap docId) := by
  unfold removeIndexed
  split
  · rename_i m id k cs hm hg
    rw [getObjectItem_single hm] at hg
    obtain ⟨hnm, rfl⟩ : nameMatches m.string "_id" = true ∧ m = ⟨.string id, k, cs⟩ := by
      split at hg <;> simp_all
    obtain ⟨name, rfl⟩ : ∃ name, k = some name := by
      cases k with
      | none => exact absurd hnm (by simp [nameMatches])
      | some name => exact ⟨name, rfl⟩
    obtain ⟨hsole, -⟩ := hsafe _ name hm rfl (.inl ⟨hnm, id, rfl⟩)
    dsimp only
    rw [StrMap.get_touch]
    split
    · rename_i hin
      obtain ⟨t, ht⟩ := Option.isSome_iff_exists.mp (AList.lookup_isSome.mpr hin)
      have htid := ((hprim.indexed.lookup_iff id t).mp ht).2
      refine .inr ?_
      rw [filter_engineMatches_eq_docId hq hm rfl hprim.indexed.objects hsole rfl hnm]
      have hperm := (Indexed.lookup_perm hprim.indexed id).filterMap docId
      rw [ht] at hperm
      simpa [htid] using hperm
    · exact .inl rfl
  · split
    · rename_i m hm _ _ name hname
      split
      · rename_i hcond
        obtain ⟨hsole, hagree⟩ := hsafe m name hm hname (.inr hcond)
        dsimp only
        rw [StrMap.get_touch]
        split
        · rename_i keys hkeys
          have hentry : CustomIndexes.entry db.customIndexes coll name (queryKey m) =
              (keys.lookup (queryKey m)).getD [] := by
            rw [CustomIndexes.entry, StrMap.get_of_lookup _ hkeys]
            rfl
          refine .inr ?_
          rw [← hentry, filter_engineMatches_eq_indexKey hq hm hname hprim.indexed.objects hsole hcond.2 hagree]
          exact (hsec name hcond.1 (queryKey m)).filterMap docId
        · exact .inl rfl
      · exact .inl rfl
    · exact .inl rfl
  · exact .inl rfl

theorem filterMap_docId_map_reparse {l : List Item} (h : ∀ d ∈ l, d.type = .object) :
    (l.map reparse).filterMap docId = l.filterMap docId := by
  rw [List.filterMap_map]
  exact List.filterMap_congr fun d hd => docId_reparse_of_object (h d hd)

theorem removeTargets_perm (hE : E.ScansExactly) (hprim : CollectionIndexed db coll)
    (hmem : coll ∈ db.memoryStore)
    (hidx : (db.removeIndexed coll q).1 = [] ∨ (db.removeIndexed coll q).1.Perm
      (((children (db.memoryStore.get coll)).filter (engineMatches q)).filterMap docId)) :
    ∃ ids, db.removeTargets E coll q = some (ids, (db.removeIndexed coll q).2) ∧
      ids.Perm (((children (db.memoryStore.get coll)).filter (engineMatches q)).filterMap docId) := by
  obtain ⟨k, hl⟩ := hprim.array hmem
  obtain ⟨ii, ci, hdb₁, -, -⟩ := removeIndexed_snd db coll q
  set docs := children (db.memoryStore.get coll)
  have hget : db.memoryStore.get coll = some ⟨.array, k, docs⟩ := StrMap.get_of_lookup _ hl
  unfold removeTargets
  rcases hr : db.removeIndexed coll q with ⟨ids₀, db₁⟩
  rw [hr] at hidx hdb₁
  dsimp only at hidx hdb₁ ⊢
  split
  · subst hdb₁
    obtain ⟨l, hperm, hfind⟩ := hE k docs q
    have hobj : ∀ d ∈ l, d.type = .object := fun d hd =>
      hprim.indexed.objects d (List.mem_of_mem_filter (hperm.subset hd))
    refine ⟨((l.map reparse).map reparse).filterMap docId, ?_, ?_⟩
    · rw [hget]
      dsimp only
      rw [hfind]
      simp only [Option.map_some', reparse_array, children]
    · rw [filterMap_docId_map_reparse (by simpa using hobj), filterMap_docId_map_reparse hobj]
      exact hperm.filterMap docId
  · rename_i he
    exact ⟨ids₀, rfl, hidx.resolve_left fun h => he (h ▸ rfl)⟩

section Targets

variable {docs : List Item} {index : StrMap Item} (h : Indexed docs index) {p : Item -> Bool}
  {ids : List String} (hperm : ids.Perm ((docs.filter p).filterMap docId))
include hperm

theorem exists_of_mem_targets {u : String} (hu : u ∈ ids) : ∃ d ∈ docs, d.docId = some u := by
  obtain ⟨d, hd, hdu⟩ := List.mem_filterMap.mp (hperm.subset hu)
  exact ⟨d, List.mem_of_mem_filter hd, hdu⟩

include h

theorem nodup_of_perm_targets : ids.Nodup := by
  have hsome : ((docs.filter p).filterMap docId).map some = (docs.filter p).map docId := by
    rw [List.map_filterMap_some_eq_filter_map_isSome, List.filter_eq_self]
    intro x hx
    obtain ⟨d, hd, rfl⟩ := List.mem_map.mp hx
    exact h.ids d (List.mem_of_mem_filter hd)
  refine hperm.nodup_iff.mpr (List.Nodup.of_map some ?_)
  rw [hsome]
  exact ((List.filter_sublist docs).map docId).nodup h.nodup

theorem all_ne_targets {d : Item} (hd : d ∈ docs) : (ids.all fun u => d.docId != some u) = !p d := by
  obtain ⟨u, hu⟩ := Option.isSome_iff_exists.mp (h.ids d hd)
  cases hp : p d
  · refine List.all_eq_true.mpr fun u' hu' => bne_iff_ne.mpr fun hdu' => ?_
    obtain ⟨d', hd', hdid'⟩ := List.mem_filterMap.mp (hperm.subset hu')
    obtain rfl := h.eq_of_docId hd (List.mem_of_mem_filter hd') (hdu'.trans hdid'.symm)
    exact absurd (List.of_mem_filter hd') (by simp [hp])
  · have hmem : u ∈ ids := hperm.symm.subset (List.mem_filterMap.mpr ⟨d, List.mem_filter.mpr ⟨hd, hp⟩, hu⟩)
    exact List.all_eq_false.mpr ⟨u, hmem, by simp [hu]⟩

theorem targets_eq_nil_iff : ids = [] ↔ ∀ d ∈ docs, p d = false := by
  constructor
  · intro hnil d hd
    simpa [hnil] using (all_ne_targets h hperm hd).symm
  · intro hnone
    rw [← List.length_eq_zero, hperm.length_eq, List.length_eq_zero, List.filter_eq_nil_iff.mpr
      fun d hd => by simp [hnone d hd]]
    rfl

end Targets


theorem remove_of_present (hmem : coll ∈ db.memoryStore) {ids : List String} {db₁ : Db}
    (ht : db.removeTargets E coll q = some (ids, db₁)) :
    db.remove E env coll q = some (!ids.isEmpty, ids.foldl (fun db u => db.removeOne env coll u) db₁) := by
  unfold remove
  rw [if_pos hmem, ht]
  cases ids <;> rfl

end Db

/-!
## Delete against the scan
-/

end AevumDb
