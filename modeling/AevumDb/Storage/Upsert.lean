import AevumDb.Storage.Find

/-!
# Concurrent upserts

Db::upsert takes no lock of its own: it calls Db::count, which holds the shared
lock, and then Db::update or Db::insert, which each take the exclusive lock.
So a thread running it makes two locked steps, and the steps of threads on
other connections can fall between them.  A schedule names the thread that
takes the next step; `runUpserts` runs it.

A thread whose two steps run back to back is exactly `Db.upsert`
(`runUpserts_back_to_back`), so the serial orders are the runs the spec asks
every schedule to match.  But a thread's mutation acts on the count it read,
however old (`runUpserts_counts_first`): two threads that both count no match
both insert, where either serial order inserts once and then updates.
-/

namespace AevumDb

open Item

def Db.upsertAfter (E : PredicateEngine) (env : Env) (db : Db) (coll : String) (query data : Item)
    (n : Int) : Option (Bool × Db) :=
  if n > 0 then db.update E env coll query data else db.insert E env coll data

theorem Db.upsert_eq_bind (E : PredicateEngine) (env : Env) (db : Db) (coll : String)
    (query data : Item) :
    db.upsert E env coll query data =
      (db.count E coll (some query)).bind (db.upsertAfter E env coll query data) := rfl

/-!
## Threads and schedules
-/

inductive UpsertPc where
  | start
  | counted (n : Int)
  | done (r : Bool)

structure UpsertThread where
  coll : String
  query : Item
  data : Item
  pc : UpsertPc

def UpsertThread.step (E : PredicateEngine) (env : Env) (db : Db) (t : UpsertThread) :
    Option (UpsertThread × Db) :=
  match t.pc with
  | .start => (db.count E t.coll (some t.query)).map fun n => ({ t with pc := .counted n }, db)
  | .counted n =>
      (db.upsertAfter E env t.coll t.query t.data n).map fun p => ({ t with pc := .done p.1 }, p.2)
  | .done _ => none

def runUpserts (E : PredicateEngine) : List (Nat × Env) -> Db × List UpsertThread ->
    Option (Db × List UpsertThread)
  | [], s => some s
  | (i, env) :: sched, (db, ts) =>
      match ts[i]? with
      | none => none
      | some t =>
          match t.step E env db with
          | none => none
          | some (t', db') => runUpserts E sched (db', ts.set i t')

theorem runUpserts_back_to_back (E : PredicateEngine) {db : Db} {ts : List UpsertThread} {i : Nat}
    {t : UpsertThread} (hi : ts[i]? = some t) (hpc : t.pc = .start) (env₀ env : Env)
    (sched : List (Nat × Env)) :
    runUpserts E ((i, env₀) :: (i, env) :: sched) (db, ts) =
      (db.upsert E env t.coll t.query t.data).bind fun p =>
        runUpserts E sched (p.2, ts.set i { t with pc := .done p.1 }) := by
  have hlt : i < ts.length := (List.getElem?_eq_some_iff.mp hi).1
  simp only [runUpserts, hi, UpsertThread.step, hpc, Db.upsert_eq_bind]
  cases hn : db.count E t.coll (some t.query) with
  | none => rfl
  | some n =>
      simp only [Option.map_some', Option.some_bind, List.getElem?_set_self hlt, List.set_set]
      cases db.upsertAfter E env t.coll t.query t.data n <;> rfl

theorem runUpserts_counts_first (E : PredicateEngine) {db : Db} {t₀ t₁ : UpsertThread}
    (h₀ : t₀.pc = .start) (h₁ : t₁.pc = .start) {n₀ n₁ : Int}
    (hn₀ : db.count E t₀.coll (some t₀.query) = some n₀)
    (hn₁ : db.count E t₁.coll (some t₁.query) = some n₁) (env env' env₀ env₁ : Env) :
    runUpserts E [(0, env), (1, env'), (0, env₀), (1, env₁)] (db, [t₀, t₁]) =
      (db.upsertAfter E env₀ t₀.coll t₀.query t₀.data n₀).bind fun p₀ =>
        (p₀.2.upsertAfter E env₁ t₁.coll t₁.query t₁.data n₁).map fun p₁ =>
          (p₁.2, [{ t₀ with pc := .done p₀.1 }, { t₁ with pc := .done p₁.1 }]) := by
  simp only [runUpserts, List.getElem?_cons_zero, List.getElem?_cons_succ, UpsertThread.step, h₀,
    h₁, hn₀, hn₁, Option.map_some', List.set_cons_zero, List.set_cons_succ]
  cases db.upsertAfter E env₀ t₀.coll t₀.query t₀.data n₀ with
  | none => rfl
  | some p₀ =>
      simp only [Option.map_some', Option.some_bind]
      cases p₀.2.upsertAfter E env₁ t₁.coll t₁.query t₁.data n₁ <;> rfl

/-!
## What the engine's count and update do to the collection
-/

def PredicateEngine.CountsMatches (E : PredicateEngine) : Prop :=
  ∀ (docs : List Item) (q : Item),
    E.count (reparse ⟨.array, none, docs⟩) (reparse q) = ((docs.filter (engineMatches q)).length : Int)

theorem Db.count_of_array {E : PredicateEngine} (hE : E.CountsMatches) {db : Db} {coll : String}
    {k : Option String} {docs : List Item} (hl : db.memoryStore.lookup coll = some (some ⟨.array, k, docs⟩))
    {q : Item} (hq : q.child ≠ []) :
    db.count E coll (some q) = some ((docs.filter (engineMatches q)).length : Int) := by
  have hsize : getArraySize (some q) ≠ 0 := by
    obtain ⟨t, n, cs⟩ := q
    cases cs <;> simp_all [getArraySize, children]
  simp only [Db.count, hl, if_neg hsize, reparse_array]
  rw [← hE docs q, reparse_array]

theorem Db.length_update {E : PredicateEngine} (hE : E.KeepsIds) {db db' : Db} {env : Env}
    {coll : String} {k : Option String} {docs : List Item}
    (hl : db.memoryStore.lookup coll = some (some ⟨.array, k, docs⟩)) {query data : Item} {r : Bool}
    (h : db.update E env coll query data = some (r, db')) :
    (children (db'.memoryStore.get coll)).length = docs.length := by
  rcases Db.update_eq_some h with ⟨hn, -⟩ | ⟨arr, hl', -, rfl⟩
  · rw [hl] at hn; cases hn
  · rw [hl] at hl'
    cases hl'
    obtain ⟨out, hout, hperm⟩ := hE docs (reparse query) (reparse data)
    have hstored : Db.updatedCollection E ⟨.array, k, docs⟩ query data = some ⟨.array, none, out⟩ := by
      simpa [Db.updatedCollection] using hout
    rw [Db.compactCollection_snd, Db.rebuildIndex_eq]
    simp only [StrMap.get_insert_self, hstored, children]
    simpa using hperm.length_eq

/-!
## Two upserts of one query
-/

def countingEngine : PredicateEngine where
  validate _ _ := true
  count arr q := ((arr.child.filter (engineMatches q)).length : Int)
  find _ _ _ _ _ _ := some createArray
  update arr _ _ := some arr

theorem countingEngine_countsMatches : countingEngine.CountsMatches := by
  intro docs q
  have hsame : ∀ d, engineMatches (reparse q) (reparse d) = engineMatches q d := by
    intro d
    simp only [engineMatches, reparse_reparse]
  simp [countingEngine, List.filter_map, Function.comp_def, hsame]

theorem countingEngine_keepsIds : countingEngine.KeepsIds := by
  intro docs query data
  refine ⟨docs.map reparse, ?_, List.Perm.refl _⟩
  simp only [countingEngine, Option.map_some', reparse_array, List.map_map, Function.comp_def,
    reparse_reparse]

theorem Db.upsert_upsert_length {E : PredicateEngine} (hcount : E.CountsMatches) (hE : E.KeepsIds)
    {db db₁ db₂ : Db} {env₁ env₂ : Env} {coll : String} {q d₀ d₁ : Item} {r₁ r₂ : Bool}
    (h₁ : db.upsert E env₁ coll q d₀ = some (r₁, db₁)) (h₂ : db₁.upsert E env₂ coll q d₁ = some (r₂, db₂))
    (hnone : db.memoryStore.lookup coll = none) (hschema : db.schemas.lookup coll = none)
    (hq : q.child ≠ [])
    (hmatch : ∀ uuid item, assignId env₁ d₀ = some (uuid, item) -> engineMatches q item = true) :
    (children (db₂.memoryStore.get coll)).length = 1 := by
  have hcount₀ : db.count E coll (some q) = some 0 := by simp [count, hnone]
  rw [upsert_eq_bind, hcount₀, Option.some_bind, upsertAfter, if_neg (by decide)] at h₁
  rcases insert_eq_some h₁ with ⟨hv, -⟩ | ⟨uuid, item, -, ha, -, rfl⟩
  · simp [validate, hschema] at hv
  have hl : ((db.getCollection coll).inserted coll uuid item env₁.ioOk).memoryStore.lookup coll =
      some (some ⟨.array, none, [item]⟩) := by
    have hget : (db.getCollection coll).memoryStore.get coll = some createArray := by
      rw [StrMap.get, memoryStore_lookup_getCollection, if_pos ⟨rfl, AList.lookup_eq_none.mp hnone⟩]
      rfl
    simp [inserted, hget, addItemToArray, createArray]
  rw [upsert_eq_bind, count_of_array hcount hl hq, List.filter_singleton, hmatch uuid item ha,
    cond_true, List.length_singleton, Option.some_bind, upsertAfter, if_pos (by decide)] at h₂
  exact length_update hE hl h₂

/-- Two upserts on an empty collection, of documents that both match their common query: when
both count before either mutates, both insert, and the collection holds two documents; run one
after the other, in either order, the first inserts and the second updates, and it holds one. -/
theorem upserts_race_inserts_twice :
    (exists db, runUpserts countingEngine [(0, ⟨0, 0, 0, true⟩), (1, ⟨0, 0, 0, true⟩),
        (0, ⟨0, 0, 0, true⟩), (1, ⟨0, 0, 0, true⟩)]
        (Db.fresh ⟨0, 0, 0, true⟩,
          [⟨"c", createObject.addStringToObject "k" "v",
            (createObject.addStringToObject "_id" "a").addStringToObject "k" "v", .start⟩,
           ⟨"c", createObject.addStringToObject "k" "v",
            (createObject.addStringToObject "_id" "b").addStringToObject "k" "v", .start⟩]) =
        some (db, [⟨"c", createObject.addStringToObject "k" "v",
            (createObject.addStringToObject "_id" "a").addStringToObject "k" "v", .done true⟩,
           ⟨"c", createObject.addStringToObject "k" "v",
            (createObject.addStringToObject "_id" "b").addStringToObject "k" "v", .done true⟩]) ∧
      (children (db.memoryStore.get "c")).length = 2) ∧
    ∀ sched ∈ [[0, 0, 1, 1], [1, 1, 0, 0]], ∀ db ts,
      runUpserts countingEngine (sched.map fun i => (i, ⟨0, 0, 0, true⟩))
        (Db.fresh ⟨0, 0, 0, true⟩,
          [⟨"c", createObject.addStringToObject "k" "v",
            (createObject.addStringToObject "_id" "a").addStringToObject "k" "v", .start⟩,
           ⟨"c", createObject.addStringToObject "k" "v",
            (createObject.addStringToObject "_id" "b").addStringToObject "k" "v", .start⟩]) =
        some (db, ts) ->
      (children (db.memoryStore.get "c")).length = 1 := by
  refine ⟨?_, ?_⟩
  · -- both count `0` on the empty collection, so both insert
    rw [runUpserts_counts_first countingEngine rfl rfl (by rfl) (by rfl)]
    exact ⟨_, rfl, rfl⟩
  simp only [List.mem_cons, List.mem_singleton, List.not_mem_nil, or_false]
  rintro sched (rfl | rfl) db ts h
  all_goals
    simp only [List.map_cons, List.map_nil] at h
    rw [runUpserts_back_to_back _ rfl rfl] at h
    obtain ⟨⟨r₀, db₀⟩, hp₀, h⟩ := Option.bind_eq_some.mp h
    rw [runUpserts_back_to_back _ rfl rfl] at h
    obtain ⟨⟨r₁, db₁⟩, hp₁, h⟩ := Option.bind_eq_some.mp h
    cases h
    refine Db.upsert_upsert_length countingEngine_countsMatches countingEngine_keepsIds hp₀ hp₁ rfl rfl
      (by decide) (fun uuid item ha => ?_)
    cases ha
    decide

/-!
## Where a schema is checked

Of the writes that store documents only Db::insert calls Db::validate: Db::update stores what
the engine returns, and Db::upsert checks the schema only when its count finds no match and it
inserts.
-/

namespace Db

variable {E : PredicateEngine} {env : Env} {db : Db} {coll : String} {query data : Item}

theorem update_schemas (schemas : StrMap Item) :
    Db.update E env { db with schemas := schemas } coll query data =
      (db.update E env coll query data).map fun p => (p.1, { p.2 with schemas := schemas }) := by
  unfold update
  dsimp only
  rcases db.memoryStore.lookup coll with _ | _ | arr <;>
    simp only [rebuildIndex_eq, compactCollection_snd, Option.map_some', Option.map_none']

theorem count_schemas (schemas : StrMap Item) (q : Option Item) :
    Db.count E { db with schemas := schemas } coll q = db.count E coll q := rfl

theorem upsert_schemas_of_match (schemas : StrMap Item) {n : Int} (hn : db.count E coll (some query) = some n)
    (hpos : 0 < n) :
    Db.upsert E env { db with schemas := schemas } coll query data =
      (db.upsert E env coll query data).map fun p => (p.1, { p.2 with schemas := schemas }) := by
  have hafter (db₀ : Db) : db₀.upsertAfter E env coll query data n = db₀.update E env coll query data :=
    if_pos hpos
  rw [upsert_eq_bind, upsert_eq_bind, count_schemas, hn, Option.some_bind, Option.some_bind,
    hafter, hafter, update_schemas]

theorem validate_of_insert {db' : Db} (h : db.insert E env coll data = some (true, db')) :
    db.validate E coll data = true := by
  rcases insert_eq_some h with ⟨-, hr, -⟩ | ⟨-, -, hv, -⟩
  · cases hr
  · exact hv

end Db

end AevumDb
