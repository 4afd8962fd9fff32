import AevumDb.Storage.LastWriter

/-!
# Restarting twice

While `load_all` replays a document collection it may compact the collection's log, rewriting
it as one frame per document it rebuilt; the constructor may also log a bootstrapped `root` in
`_auth`.  A `Db` constructed on the directory the first construction left therefore reads other
files than the first did.  It still rebuilds every document collection with the same documents,
up to their order (`restart_twice_same_documents`).  That holds for any directory whose frames
read back as they were parsed, and whatever order the two listings come in; a frame holding
`0.30000000000000004`, which compaction prints as `0.3`, does not.

One load leaves a document collection's log as it was, or rewritten by compaction
(`loadAll_log`), and each construction holds what the log it read replays to
(`construct_children`); the compaction's log replays to the same documents
(`collectionArray_compacted`).
-/

namespace AevumDb

open Item Recovery

namespace Db

variable {order : String -> List Item -> List Item} {env : Env} {db db' : Db} {name c : String}

theorem loadCollection_log (hi : name ≠ "_indexes") (hs : name ≠ "_schemas")
    (h : loadCollection order env db name = some db') :
    Engine.logFrames db'.storage name = Engine.logFrames db.storage name ∨
      Engine.logFrames db'.storage name =
        (collectionArray order name (Engine.logFrames db.storage name)).child.map fun d => some (reparse d) := by
  unfold loadCollection at h
  rw [if_neg hi, if_neg hs] at h
  simp only [rebuildIndex_eq] at h
  obtain ⟨db₁, hloaded, rfl⟩ := Option.map_eq_some'.mp h
  have hdb₁ : db₁.storage = db.storage ∧ db₁.memoryStore.lookup name =
      some (some (collectionArray order name (Engine.logFrames db.storage name))) := by
    split at hloaded
    · obtain ⟨cache, -, rfl⟩ := Option.map_eq_some'.mp hloaded
      exact ⟨rfl, AList.lookup_insert _⟩
    · cases hloaded
      exact ⟨rfl, AList.lookup_insert _⟩
  split
  · rw [compactCollection_snd, hdb₁.2]
    cases env.ioOk
    · exact .inl (congrArg (Engine.logFrames · name) hdb₁.1)
    · rw [hdb₁.1, Engine.logFrames_compact_self]
      exact .inr rfl
  · exact .inl (congrArg (Engine.logFrames · name) hdb₁.1)

theorem loadAll_log {names : List String} (hnodup : names.Nodup) (hres : ∀ n ∈ names, Engine.fileKey n = n)
    (hmem : c ∈ names) (hi : c ≠ "_indexes") (hs : c ≠ "_schemas") (h : loadAll order env names db = some db') :
    Engine.logFrames db'.storage c = Engine.logFrames db.storage c ∨
      Engine.logFrames db'.storage c =
        (collectionArray order c (Engine.logFrames db.storage c)).child.map fun d => some (reparse d) := by
  induction names generalizing db with
  | nil => cases hmem
  | cons n names ih =>
      rw [loadAll_cons] at h
      obtain ⟨db₁, h₁, hrest⟩ := Option.bind_eq_some.mp h
      have hres' : ∀ m ∈ names, Engine.fileKey m = m := fun m hm => hres m (List.mem_cons_of_mem n hm)
      by_cases hn : c = n
      · subst hn
        rw [loadAll_frames hrest (List.nodup_cons.mp hnodup).1 hres' (hres c hmem)]
        exact loadCollection_log hi hs h₁
      · rw [← loadCollection_frames h₁ hn (hres c hmem) (hres n (List.mem_cons_self n names))]
        exact ih (List.nodup_cons.mp hnodup).2 hres' ((List.mem_cons.mp hmem).resolve_left hn) hrest

/-- A construction on a directory listed by list_collections holds, in every listed document
collection, what the collection's log replays to, and leaves that log as it was or compacted
from the rebuilt array; it leaves every other collection empty and its file as it was. -/
theorem construct_children (horder : ∀ n l, (order n l).Perm l) {disk : StrMap (List Frame)}
    {names : List String} (hnames : names.Perm (Engine.listing disk))
    (h : construct order env disk names = some db) (hc : ¬ reserved c) :
    (c ∈ names -> (children (db.memoryStore.get c)).Perm ((replay (Engine.logFrames disk c)).entries.map (·.2)) ∧
      (Engine.logFrames db.storage c = Engine.logFrames disk c ∨
        Engine.logFrames db.storage c =
          (collectionArray order c (Engine.logFrames disk c)).child.map fun d => some (reparse d))) ∧
    (c ∉ names -> children (db.memoryStore.get c) = [] ∧
      (Engine.fileKey c = c -> Engine.logFrames db.storage c = Engine.logFrames disk c)) := by
  have hnodup : names.Nodup := hnames.nodup_iff.mpr (Engine.nodup_listing _)
  have hres : ∀ n ∈ names, Engine.fileKey n = n :=
    fun n hn => Engine.fileKey_of_mem_listing _ (hnames.subset hn)
  have hi : c ≠ "_indexes" := fun e => hc (Or.inr (Or.inr e))
  have hs : c ≠ "_schemas" := fun e => hc (Or.inr (Or.inl e))
  obtain ⟨db₁, h₁, -⟩ := Option.bind_eq_some.mp h
  -- bootstrapping `root` writes `_auth` only
  obtain ⟨db', h', hframe⟩ := construct_other h₁ fun e => hc (Or.inl e)
  obtain rfl : db = db' := Option.some.inj (h.symm.trans h')
  have hframes (hcres : Engine.fileKey c = c) : Engine.logFrames db.storage c = Engine.logFrames db₁.storage c := by
    show db.storage.get (Engine.fileKey c) = db₁.storage.get (Engine.fileKey c)
    rw [hcres]
    exact hframe.2
  refine ⟨fun hmem => ?_, fun hmem => ⟨?_, fun hcres => ?_⟩⟩
  · rw [StrMap.get, hframe.1, hframes (hres c hmem), loadAll_collection hnodup hmem hres hi hs h₁]
    exact ⟨horder _ _, loadAll_log hnodup hres hmem hi hs h₁⟩
  · rw [StrMap.get, hframe.1, loadAll_lookup h₁ hmem]
    rfl
  · rw [hframes hcres]
    exact loadAll_frames h₁ hmem hres hcres

end Db

/-- Constructing a `Db` on any directory whose frames read back as they were parsed, and then
again on the directory the first construction left, both listed by list_collections in any
order, gives every document collection the same documents, up to their order: the compaction
load_all may make while it loads, and the `root` the constructor may log, change no collection
a later restart rebuilds. -/
theorem restart_twice_same_documents {order : String -> List Item -> List Item}
    (horder : ∀ n l, (order n l).Perm l) {disk : StrMap (List Frame)} {names names₂ : List String}
    {env₁ env₂ : Env} {db₁ db₂ : Db} {coll : String} (hc : ¬ reserved coll)
    (hparsed : ∀ d, some d ∈ Engine.logFrames disk coll -> reparse d = d)
    (hnames : names.Perm (Engine.listing disk)) (h₁ : Db.construct order env₁ disk names = some db₁)
    (hnames₂ : names₂.Perm (Engine.listing db₁.storage))
    (h₂ : Db.construct order env₂ db₁.storage names₂ = some db₂) :
    (children (db₂.memoryStore.get coll)).Perm (children (db₁.memoryStore.get coll)) := by
  obtain ⟨hin₁, hout₁⟩ := Db.construct_children horder hnames h₁ hc
  obtain ⟨hin₂, hout₂⟩ := Db.construct_children horder hnames₂ h₂ hc
  by_cases hmem : coll ∈ names
  · obtain ⟨-, hne, hslash⟩ := (Engine.mem_listing _).mp (hnames.subset hmem)
    obtain ⟨hp₁, hlog⟩ := hin₁ hmem
    -- the first construction holds what the log it leaves replays to
    have hstable : (children (db₁.memoryStore.get coll)).Perm
        ((replay (Engine.logFrames db₁.storage coll)).entries.map (·.2)) := by
      refine hp₁.trans ?_
      rcases hlog with hlog | hlog
      · rw [hlog]
      · rw [hlog]
        exact (horder coll _).symm.trans
          ((collectionArray_compacted (horder coll) hparsed).symm.trans (horder coll _))
    by_cases hmem₂ : coll ∈ names₂
    · exact (hin₂ hmem₂).1.trans hstable.symm
    · rw [(hout₂ hmem₂).1]
      refine (hstable.trans ?_).symm
      rw [Engine.logFrames_of_not_mem_listing _ hne hslash fun h => hmem₂ (hnames₂.mem_iff.mpr h)]
      rfl
  · rw [(hout₁ hmem).1]
    by_cases hmem₂ : coll ∈ names₂
    · -- a collection the first listing missed has no file for the second to list
      obtain ⟨-, hne, hslash⟩ := (Engine.mem_listing _).mp (hnames₂.subset hmem₂)
      refine (hin₂ hmem₂).1.trans ?_
      rw [(hout₁ hmem).2 (Engine.fileKey_of_slashFree hslash),
        Engine.logFrames_of_not_mem_listing _ hne hslash fun h => hmem (hnames.mem_iff.mpr h)]
      rfl
    · rw [(hout₂ hmem₂).1]

theorem restart_twice_one_document :
    ∃ db₁ db₂, Db.construct (fun _ l => l) ⟨0, 0, 0, true⟩
        (AList.insert "c" [some (createObject.addStringToObject "_id" "d")] ∅) ["c"] = some db₁ ∧
      Db.construct (fun _ l => l) ⟨0, 0, 0, true⟩ db₁.storage (Engine.listing db₁.storage) = some db₂ ∧
      (children (db₂.memoryStore.get "c")).Perm (children (db₁.memoryStore.get "c")) := by
  obtain ⟨db₁, h₁⟩ : ∃ db₁, Db.construct (fun _ l => l) ⟨0, 0, 0, true⟩
      (AList.insert "c" [some (createObject.addStringToObject "_id" "d")] ∅) ["c"] = some db₁ :=
    ⟨_, rfl⟩
  obtain ⟨db₂, h₂⟩ : ∃ db₂, Db.construct (fun _ l => l) ⟨0, 0, 0, true⟩ db₁.storage
      (Engine.listing db₁.storage) = some db₂ := by
    cases h₁
    exact ⟨_, rfl⟩
  have hparsed : ∀ d, some d ∈ Engine.logFrames (AList.insert "c" [some (createObject.addStringToObject "_id" "d")] ∅)
      "c" -> reparse d = d := by
    intro d hd
    obtain rfl := Option.some.inj (List.mem_singleton.mp hd)
    rfl
  exact ⟨db₁, db₂, h₁, h₂, restart_twice_same_documents (fun _ _ => .refl _) (by decide) hparsed
    (by decide) h₁ (.refl _) h₂⟩

end AevumDb
