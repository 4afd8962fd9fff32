import AevumDb.Network.Handler
import AevumDb.Storage.Find

/-!
# Requests as calls of the database

`Handler::process` answers a request with at most one operation of `Db`.  So every request
leaves the state as it was, or as one call of `Db` leaves it, or as `find` leaves it, whose
index reads insert missing keys and change no lookup (`process_effect`).

A server's run of requests is then a run of calls with index reads between them (`Served`,
whose requests have their effect admitted by a restriction on calls, as `Reachable`'s calls
are), and every invariant of the calls that such reads keep holds along it
(`Served.induct_on`).  Along the requests whose inserts add fresh objects and whose
create_index backfills safely, the primary and secondary indexes stay right
(`served_keeps_indexes`); along those whose writes succeed and add fresh objects, memory
stays what the logs replay to, and a restart gives every document collection back
(`served_restart_reproduces`).

The handler is described once, by what it answers (`Handler.process_cases`: an early reply,
or a command's reply) and by what each command can come to (`Handler.Outcome`: a refusal, one
call of `Db` whose result it reports, a find or a count).
The effect of a request and the shape of its reply, a `status` of `ok`, `error` or `goodbye`
and a non-empty `message` on every reply that is not `ok` (`process_reply_status`), both
follow from it.
-/

namespace AevumDb

open Item

inductive Effect (E : PredicateEngine) (allowed : Db -> Env -> Call -> Prop) (env : Env) (db : Db) :
    Db -> Prop
  | keep : Effect E allowed env db db
  | call {c : Call} {r : Bool} {db' : Db} : allowed db env c -> db.call E env c = some (r, db') ->
      Effect E allowed env db db'
  | read {ii : StrMap (StrMap Item)} {ci : CustomIndexes} : (∀ c, ii.get c = db.idIndexes.get c) ->
      (∀ c f k, CustomIndexes.entry ci c f k = CustomIndexes.entry db.customIndexes c f k) ->
      Effect E allowed env db { db with idIndexes := ii, customIndexes := ci }

namespace Db

variable {E : PredicateEngine} {db db' : Db} {coll : String}

theorem entry_modify_touch (ci : CustomIndexes) (coll field c f k : String) :
    CustomIndexes.entry (ci.modify coll fun fm => fm.touch field) c f k =
      CustomIndexes.entry ci c f k := by
  unfold CustomIndexes.entry
  rw [StrMap.get_modify]
  split
  · subst c
    rw [StrMap.get_touch]
  · rfl

theorem findTier2_reads {query : Option Item} {simpleReq : Bool} {limit skip : Int} {res : Item}
    (h : db.findTier2 coll query simpleReq limit skip = some (res, db')) :
    ∃ field, db' = { db with customIndexes := db.customIndexes.modify coll fun fm => fm.touch field } := by
  unfold findTier2 at h
  dsimp only at h
  repeat' split at h
  all_goals first
    | (obtain ⟨-, rfl⟩ := Prod.mk.inj (Option.some.inj h); exact ⟨_, rfl⟩)
    | exact Option.noConfusion h

theorem find_reads {query sort projection : Option Item} {limit skip : Int} {res : Option Item}
    (h : db.find E coll query sort projection limit skip = some (res, db')) :
    ∃ ii ci, db' = { db with idIndexes := ii, customIndexes := ci } ∧
      (∀ c, ii.get c = db.idIndexes.get c) ∧
      ∀ c f k, CustomIndexes.entry ci c f k = CustomIndexes.entry db.customIndexes c f k := by
  unfold find at h
  split at h
  · cases h
    exact ⟨_, _, rfl, fun _ => rfl, fun _ _ _ => rfl⟩
  · dsimp only at h
    split at h
    · rename_i h₁
      obtain ⟨-, rfl⟩ := Prod.mk.inj (Option.some.inj h)
      rw [findTier1_snd h₁]
      exact ⟨_, _, rfl, fun c => StrMap.get_touch _ _ c, fun _ _ _ => rfl⟩
    · rename_i h₂
      obtain ⟨-, rfl⟩ := Prod.mk.inj (Option.some.inj h)
      obtain ⟨field, rfl⟩ := findTier2_reads h₂
      exact ⟨_, _, rfl, fun _ => rfl, entry_modify_touch _ _ field⟩
    · cases h
      exact ⟨_, _, rfl, fun _ => rfl, fun _ _ _ => rfl⟩
    · cases h

end Db

namespace Handler

variable {E : PredicateEngine} {env : Env} {db db' : Db}

inductive Outcome (E : PredicateEngine) (env : Env) (db : Db) (collection : String) :
    Item × Bool × String × Db -> Prop
  | refused {text : String} : text ≠ "" -> Outcome E env db collection (createObject, false, text, db)
  | called {c : Call} {r : Bool} {text : String} {db' : Db} : db.call E env c = some (r, db') ->
      (r = false -> text ≠ "") -> Outcome E env db collection (createObject, r, text, db')
  | found {query sort projection : Option Item} {limit skip : Int} {res : Option Item} {db' : Db} :
      db.find E collection query sort projection limit skip = some (res, db') ->
      Outcome E env db collection
        ((res.map (createObject.addItemToObject "data")).getD createObject, true, "", db')
  | counted (n : ℚ) :
      Outcome E env db collection (createObject.addNumberToObject "count" n, true, "", db)

theorem ite_ne_empty {r : Bool} {yes no : String} (hno : no ≠ "") (hr : r = false) :
    (if r then yes else no) ≠ "" := by
  subst hr
  exact hno

/-- Each command of Handler::process refuses, makes one call of `Db`, finds or counts. -/
theorem dispatch_outcome {role : UserRole} {action collection : String} {req : Item}
    {y : Item × Bool × String × Db} (h : dispatch E env db role action collection req = some y) :
    Outcome E env db collection y := by
  have refused : ∀ {text : String}, text ≠ "" -> some (createObject, false, text, db) = some y ->
      Outcome E env db collection y := by
    rintro text htext ⟨⟩
    exact .refused htext
  have called : ∀ {c : Call} {p : Bool × Db} {yes no : String}, no ≠ "" -> db.call E env c = some p ->
      some (createObject, p.1, (if p.1 then yes else no), p.2) = some y ->
      Outcome E env db collection y := by
    rintro c ⟨r, db₁⟩ yes no hno hc ⟨⟩
    exact .called hc (ite_ne_empty hno)
  have written : ∀ {c : Call} {yes no : String}, no ≠ "" ->
      (db.call E env c).map (fun p => (createObject, p.1, (if p.1 then yes else no), p.2)) = some y ->
      Outcome E env db collection y := by
    intro c yes no hno h
    obtain ⟨p, hc, he⟩ := Option.map_eq_some'.mp h
    exact called hno hc (congrArg some he)
  delta dispatch at h
  dsimp only at h
  by_cases hcu : action = "create_user"
  · rw [if_pos hcu] at h
    split at h
    · exact refused (by decide) h
    · split at h
      · obtain ⟨key, -, h⟩ := Option.bind_eq_some.mp h
        obtain ⟨userRole, -, h⟩ := Option.bind_eq_some.mp h
        exact called (c := .createUser key userRole) (by decide) rfl h
      · exact refused (by decide) h
  rw [if_neg hcu] at h
  by_cases hins : action = "insert"
  · rw [if_pos hins] at h
    split at h
    · exact written (c := .insert _ _) (by decide) h
    · exact refused (by decide) h
  rw [if_neg hins] at h
  by_cases hups : action = "upsert"
  · rw [if_pos hups] at h
    split at h
    · exact written (c := .upsert _ _ _) (by decide) h
    · exact refused (by decide) h
  rw [if_neg hups] at h
  by_cases hfind : action = "find"
  · rw [if_pos hfind] at h
    obtain ⟨⟨res, db₁⟩, hp, rfl⟩ := Option.map_eq_some'.mp h
    exact .found hp
  rw [if_neg hfind] at h
  by_cases hcount : action = "count"
  · rw [if_pos hcount] at h
    obtain ⟨n, -, rfl⟩ := Option.map_eq_some'.mp h
    exact .counted n
  rw [if_neg hcount] at h
  by_cases hupd : action = "update"
  · rw [if_pos hupd] at h
    split at h
    · exact written (c := .update _ _ _) (by decide) h
    · exact refused (by decide) h
  rw [if_neg hupd] at h
  by_cases hdel : action = "delete"
  · rw [if_pos hdel] at h
    split at h
    · exact written (c := .remove _ _) (by decide) h
    · exact refused (by decide) h
  rw [if_neg hdel] at h
  by_cases hss : action = "set_schema"
  · rw [if_pos hss] at h
    split at h
    · split at h
      · exact called (c := .setSchema _ _) (by decide) rfl h
      · exact refused (by decide) h
    · exact refused (by decide) h
  rw [if_neg hss] at h
  by_cases hci : action = "create_index"
  · rw [if_pos hci] at h
    split at h
    · split at h
      · exact called (c := .createIndex _ _) (by decide) rfl h
      · exact refused (by decide) h
    · exact refused (by decide) h
  rw [if_neg hci] at h
  by_cases hcmp : action = "compact"
  · rw [if_pos hcmp] at h
    split at h
    · exact called (c := .triggerCompaction _) (by decide) rfl h
    · exact refused (by decide) h
  rw [if_neg hcmp] at h
  exact refused (fun he => absurd (congrArg String.data he) (by simp)) h

theorem dispatch_effect {role : UserRole} {action collection : String} {req resp : Item} {ok : Bool}
    {msg : String} (h : dispatch E env db role action collection req = some (resp, ok, msg, db')) :
    Effect E anyCall env db db' := by
  cases dispatch_outcome h with
  | refused _ | counted _ => exact .keep
  | called hc _ => exact .call trivial hc
  | found hp =>
      obtain ⟨ii, ci, rfl, hii, hci⟩ := Db.find_reads hp
      exact .read hii hci

/-- What Handler::process answers: an early `error` or `goodbye` with its message, the state as
it was; or a command's object with `status` added, and then its message unless it is empty. -/
theorem process_cases {p : Payload} {resp : Item} (h : process E env db p = some (resp, db')) :
    (∃ status msg, (status = "error" ∨ status = "goodbye") ∧ msg ≠ "" ∧ resp = reply status msg ∧
      db' = db) ∨
    ∃ role action collection req o ok msg,
      dispatch E env db role action collection req = some (o, ok, msg, db') ∧
      resp = if msg = "" then o.addStringToObject "status" (if ok then "ok" else "error")
        else (o.addStringToObject "status" (if ok then "ok" else "error")).addStringToObject "message" msg := by
  cases p with
  | empty | malformed =>
      cases h
      exact .inl ⟨_, _, .inl rfl, by decide, rfl, rfl⟩
  | parsed req =>
      unfold process at h
      dsimp only at h
      split at h
      · cases h
        exact .inl ⟨_, _, .inl rfl, by decide, rfl, rfl⟩
      split at h
      · cases h
        exact .inl ⟨_, _, .inl rfl, by decide, rfl, rfl⟩
      split at h
      · cases h
        exact .inl ⟨_, _, .inr rfl, by decide, rfl, rfl⟩
      obtain ⟨⟨o, ok, msg, db₁⟩, hd, he⟩ := Option.map_eq_some'.mp h
      cases he
      exact .inr ⟨_, _, _, req, o, ok, msg, hd, rfl⟩

end Handler

/-- Every request Handler::process answers, from any state, leaves the state as it was, or as
one call of `Db` leaves it, or as the index reads of a find leave it: keys inserted into the
indexes, and no lookup changed. -/
theorem process_effect {E : PredicateEngine} {env : Env} {db db' : Db} {p : Payload} {resp : Item}
    (h : Handler.process E env db p = some (resp, db')) : Effect E anyCall env db db' := by
  rcases Handler.process_cases h with
    ⟨-, -, -, -, -, rfl⟩ | ⟨role, action, collection, req, o, ok, msg, hd, -⟩
  · exact .keep
  · exact Handler.dispatch_effect hd

def insertRequest : Item :=
  (((createObject.addStringToObject "action" "insert").addStringToObject "auth" "root").addStringToObject
    "collection" "c").addItemToObject "data" (createObject.addStringToObject "_id" "d")

/-!
## What a request is answered

Every reply names its status, `ok`, `error` or `goodbye`, and every reply that is not `ok`
says why in a non-empty `message`: the early returns spell both out, and the response phase
adds `status` and then the command's message to an object whose only member, if any, is
`data` or `count`.
-/

namespace Item

theorem getObjectItem_addItemToObject_of_some {o x y : Item} {n name : String}
    (h : o.getObjectItem name = some y) : (o.addItemToObject n x).getObjectItem name = some y := by
  rw [getObjectItem_addItemToObject, h]
  rfl

theorem stringMember_addStringToObject_self {o : Item} {name s : String}
    (h : o.getObjectItem name = none) : (o.addStringToObject name s).stringMember name = some s := by
  rw [stringMember, addStringToObject, getObjectItem_addItemToObject, h, nameMatches_self]
  rfl

theorem stringMember_addStringToObject_of_some {o : Item} {n name s v : String}
    (h : o.stringMember name = some v) : (o.addStringToObject n s).stringMember name = some v := by
  obtain ⟨y, hy, hv⟩ := Option.bind_eq_some.mp h
  rw [stringMember, addStringToObject, getObjectItem_addItemToObject_of_some hy]
  exact hv

end Item

namespace Handler

variable {E : PredicateEngine} {env : Env} {db : Db} {collection : String}

theorem reply_status (status msg : String) : (reply status msg).stringMember "status" = some status :=
  stringMember_addStringToObject_of_some (stringMember_addStringToObject_self rfl)

theorem reply_message (status msg : String) : (reply status msg).stringMember "message" = some msg :=
  stringMember_addStringToObject_self rfl

theorem Outcome.answer {y : Item × Bool × String × Db} (h : Outcome E env db collection y) :
    y.1.getObjectItem "status" = none ∧ y.1.getObjectItem "message" = none ∧
      (y.2.1 = false -> y.2.2.1 ≠ "") := by
  cases h with
  | refused htext => exact ⟨rfl, rfl, fun _ => htext⟩
  | called _ htext => exact ⟨rfl, rfl, htext⟩
  | @found _ _ _ _ _ res _ _ => cases res <;> exact ⟨rfl, rfl, Bool.noConfusion⟩
  | counted _ => exact ⟨rfl, rfl, Bool.noConfusion⟩

end Handler

/-- Every request Handler::process answers, from any state, gets a reply whose `status` is
`ok`, `error` or `goodbye`, and every reply whose status is not `ok` carries a non-empty
`message`: the two reply shapes the handler's header documents, and the `goodbye` that
Server::handle_client looks for. -/
theorem process_reply_status {E : PredicateEngine} {env : Env} {db db' : Db} {p : Payload}
    {resp : Item} (h : Handler.process E env db p = some (resp, db')) :
    ∃ status, resp.stringMember "status" = some status ∧
      (status = "ok" ∨ status = "error" ∨ status = "goodbye") ∧
      (status ≠ "ok" -> ∃ msg, resp.stringMember "message" = some msg ∧ msg ≠ "") := by
  rcases Handler.process_cases h with
    ⟨status, msg, hs, hmsg, rfl, -⟩ | ⟨role, action, collection, req, o, ok, msg, hd, rfl⟩
  · exact ⟨status, Handler.reply_status _ _, .inr hs, fun _ => ⟨msg, Handler.reply_message _ _, hmsg⟩⟩
  obtain ⟨hs, hm, hfail⟩ := (Handler.dispatch_outcome hd).answer
  cases ok with
  | true =>
      have hstatus := stringMember_addStringToObject_self (s := "ok") hs
      refine ⟨"ok", ?_, .inl rfl, fun hne => absurd rfl hne⟩
      split
      · exact hstatus
      · exact stringMember_addStringToObject_of_some hstatus
  | false =>
      have hmsg : msg ≠ "" := hfail rfl
      refine ⟨"error", ?_, .inr (.inl rfl), fun _ => ⟨msg, ?_, hmsg⟩⟩ <;> rw [if_neg hmsg]
      · exact stringMember_addStringToObject_of_some (stringMember_addStringToObject_self hs)
      · exact stringMember_addStringToObject_self
          (by rw [addStringToObject, getObjectItem_addItemToObject, hm]; rfl)

/-!
## Runs of requests
-/

inductive Served (E : PredicateEngine) (allowed : Db -> Env -> Call -> Prop) : Db -> Prop
  | fresh (env : Env) : Served E allowed (Db.fresh env)
  | request {db db' : Db} (env : Env) (p : Payload) {resp : Item} : Served E allowed db ->
      Handler.process E env db p = some (resp, db') -> Effect E allowed env db db' ->
      Served E allowed db'

theorem Effect.mono {E : PredicateEngine} {allowed allowed' : Db -> Env -> Call -> Prop}
    (himp : ∀ db env c, allowed db env c -> allowed' db env c) {env : Env} {db db' : Db}
    (h : Effect E allowed env db db') : Effect E allowed' env db db' := by
  cases h with
  | keep => exact .keep
  | call hallow hstep => exact .call (himp _ _ _ hallow) hstep
  | read hii hci => exact .read hii hci

theorem Served.mono {E : PredicateEngine} {allowed allowed' : Db -> Env -> Call -> Prop}
    (himp : ∀ db env c, allowed db env c -> allowed' db env c) {db : Db}
    (h : Served E allowed db) : Served E allowed' db := by
  induction h with
  | fresh env => exact .fresh env
  | request env p _ hp heff ih => exact .request env p ih hp (heff.mono himp)

/-- An invariant of the fresh state that every admitted call and every index read keeps holds
along every run of requests. -/
theorem Served.induct_on {E : PredicateEngine} {allowed : Db -> Env -> Call -> Prop}
    {P : Db -> Prop} (hfresh : ∀ env, P (Db.fresh env))
    (hcall : ∀ db db' env c r, P db -> allowed db env c -> db.call E env c = some (r, db') -> P db')
    (hread : ∀ (db : Db) (ii : StrMap (StrMap Item)) (ci : CustomIndexes), P db ->
      (∀ c, ii.get c = db.idIndexes.get c) ->
      (∀ c f k, CustomIndexes.entry ci c f k = CustomIndexes.entry db.customIndexes c f k) ->
      P { db with idIndexes := ii, customIndexes := ci })
    {db : Db} (h : Served E allowed db) : P db := by
  induction h with
  | fresh env => exact hfresh env
  | request env _ _ _ heff ih =>
      cases heff with
      | keep => exact ih
      | call hallow hstep => exact hcall _ _ _ _ _ ih hallow hstep
      | read hii hci => exact hread _ _ _ ih hii hci

/-- Along every run of requests whose inserts add objects with fresh `_id`s and whose
create_index calls backfill no collection already indexed on another field, under an engine
whose update keeps `_id`s, every collection but `_auth` keeps its primary index right and its
secondary indexes in agreement with its documents, find's index reads included. -/
theorem served_keeps_indexes {E : PredicateEngine} (hE : E.KeepsIds) {db : Db}
    (h : Served E (indexedCalls E) db) {coll : String} (hc : coll ≠ "_auth") :
    CollectionIndexed db coll ∧ SecondaryAgrees db coll :=
  h.induct_on (P := fun db => ∀ c, c ≠ "_auth" -> CollectionIndexed db c ∧ SecondaryAgrees db c)
    (fun env _ hc => ⟨Db.collectionIndexed_fresh env hc, Db.secondaryAgrees_fresh env hc⟩)
    (fun _ _ _ _ _ ih hallow hstep c hc =>
      ⟨Db.collectionIndexed_call hE hallow.1 hstep hc (ih c hc).1,
        Db.secondaryAgrees_call hE hallow.2 hstep hc (ih c hc).2⟩)
    (fun _ _ _ ih hii hci c hc => ⟨(ih c hc).1.congr rfl (hii c), (ih c hc).2.congr rfl rfl (hci c)⟩)
    coll hc

theorem Served.durable {E : PredicateEngine} (hE : E.KeepsIds) {db : Db}
    (h : Served E (durableCalls E) db) {coll : String} (hc : ¬ reserved coll)
    (hres : Engine.fileKey coll = coll) : Durable db coll :=
  h.induct_on (P := fun db => ∀ c, ¬ reserved c -> Engine.fileKey c = c -> Durable db c)
    (fun env _ hc hres => Db.durable_fresh env hc hres)
    (fun _ _ _ _ _ ih hallow hstep c hc hres => Db.durable_call hE hallow hstep hc hres (ih c hc hres))
    (fun _ _ _ ih hii _ c hc hres => (ih c hc hres).congr rfl (hii c) rfl) coll hc hres

theorem Served.metaReadable {E : PredicateEngine} {allowed : Db -> Env -> Call -> Prop}
    (hallow : ∀ db env c, allowed db env c -> keepsMetadata db env c) {db : Db}
    (h : Served E allowed db) : MetaReadable db :=
  h.induct_on (fun env => Db.metaReadable_createUser Db.metaReadable_onDisk_empty env "root" "admin")
    (fun _ _ _ _ _ hm hc hstep => Db.metaReadable_call hm (hallow _ _ _ hc) hstep)
    (fun _ _ _ hm _ _ => ⟨hm.indexes, hm.authLog, hm.authDocs, hm.noIndexes⟩)

/-- Along every run of requests from a fresh directory whose writes succeed and name the file
they reach, whose inserts add fresh objects, whose updates keep documents live, which store no
tombstone as a document and whose inserts, upserts and updates leave `_auth` and `_indexes`
alone, under an engine whose update keeps `_id`s, every document collection that
list_collections can name holds what its log replays to, and a new `Db` constructed on the
directory's listing gives it back, up to the order of its documents. -/
theorem served_restart_reproduces {E : PredicateEngine} (hE : E.KeepsIds) {db : Db}
    (h : Served E (replayableCalls E) db) {coll : String} (hc : ¬ reserved coll)
    (hne : coll ≠ "") (hslash : '/' ∉ coll.data) :
    ((children (db.memoryStore.get coll)).map reparse).Perm
        ((Recovery.replay (Engine.logFrames db.storage coll)).entries.map (·.2)) ∧
      ∀ (order : String -> List Item -> List Item), (∀ n l, (order n l).Perm l) ->
      ∀ names : List String, names.Perm (Engine.listing db.storage) -> ∀ env : Env,
      ∃ db₂, Db.construct order env db.storage names = some db₂ ∧
        (children (db₂.memoryStore.get coll)).Perm ((children (db.memoryStore.get coll)).map reparse) := by
  have hd := (h.mono fun _ _ _ hc => hc.1).durable hE hc (Engine.fileKey_of_slashFree hslash)
  have hreplay := (hd.replays.perm hd.indexed.indexed).symm
  refine ⟨hreplay, fun order horder names hnames env => ?_⟩
  obtain ⟨db₂, h₂, hp⟩ :=
    construct_collection (h.metaReadable fun _ _ _ hc => hc.2) horder hnames env hc hne hslash
  exact ⟨db₂, h₂, hp.trans hreplay.symm⟩

theorem served_insert_request :
    ∃ db, Served PredicateEngine.unchanged (fun db env c => indexedCalls PredicateEngine.unchanged db env c ∧
        replayableCalls PredicateEngine.unchanged db env c) db ∧ children (db.memoryStore.get "c") ≠ [] := by
  have hp : Handler.process PredicateEngine.unchanged ⟨0, 0, 0, true⟩ (Db.fresh ⟨0, 0, 0, true⟩)
      (.parsed insertRequest) = some (_, _) := rfl
  have hc : (Db.fresh ⟨0, 0, 0, true⟩).call PredicateEngine.unchanged ⟨0, 0, 0, true⟩
      (.insert "c" ((insertRequest.getObjectItem "data").getD createObject)) = some (true, _) := rfl
  have hfresh : FreshInsert ⟨0, 0, 0, true⟩ (Db.fresh ⟨0, 0, 0, true⟩) "c"
      ((insertRequest.getObjectItem "data").getD createObject) :=
    ⟨rfl, fun _ _ _ d hd => nomatch (show d ∈ [] from hd)⟩
  exact ⟨_, .request _ _ (.fresh _) hp
    (.call (c := .insert "c" _) ⟨⟨hfresh, trivial⟩, ⟨rfl, rfl, hfresh, rfl⟩, (⟨by decide, by decide⟩ : OutsideMetadata "c")⟩ hc),
    by decide⟩

theorem insert_request_keeps_indexes :
    ∃ db, Served PredicateEngine.unchanged (indexedCalls PredicateEngine.unchanged) db ∧
      children (db.memoryStore.get "c") ≠ [] ∧ CollectionIndexed db "c" ∧ SecondaryAgrees db "c" := by
  obtain ⟨db, h, hne⟩ := served_insert_request
  have h' := h.mono fun _ _ _ hc => hc.1
  exact ⟨db, h', hne, served_keeps_indexes PredicateEngine.unchanged_keepsIds h' (by decide)⟩

theorem insert_request_survives_restart :
    ∃ db, Served PredicateEngine.unchanged (replayableCalls PredicateEngine.unchanged) db ∧
      children (db.memoryStore.get "c") ≠ [] ∧ "c" ≠ "" ∧ '/' ∉ "c".data ∧
      ((children (db.memoryStore.get "c")).map reparse).Perm
        ((Recovery.replay (Engine.logFrames db.storage "c")).entries.map (·.2)) ∧
      ∀ (order : String -> List Item -> List Item), (∀ n l, (order n l).Perm l) ->
      ∀ names : List String, names.Perm (Engine.listing db.storage) -> ∀ env : Env,
      ∃ db₂, Db.construct order env db.storage names = some db₂ ∧
        (children (db₂.memoryStore.get "c")).Perm ((children (db.memoryStore.get "c")).map reparse) := by
  obtain ⟨db, h, hne⟩ := served_insert_request
  have h' := h.mono fun _ _ _ hc => hc.2
  exact ⟨db, h', hne, by decide, by decide,
    served_restart_reproduces PredicateEngine.unchanged_keepsIds h' (by decide) (by decide) (by decide)⟩

end AevumDb
