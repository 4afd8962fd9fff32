import AevumDb.Network.Handler

/-!
# Authorization

Handler::process resolves the request's `auth` member to a role, refuses a
NONE role outright, and refuses an action that Db::has_permission denies the
role, `create_user` excepted, whose branch checks for ADMIN itself.  So a
request reaches a state-changing Db call only when its role is ADMIN, or
READ_WRITE for insert, upsert, update and delete, and reaches find or count
only when its key authenticates: every other request is answered by one of
three refusals, with the state as it was, whatever the engine and the
environment.

Two facts of the credential store stand beside this: the roles are nested
(`hasPermission_nested`), and after create_user every non-empty key with the
new key's hash authenticates with the role the call parsed, which is never
NONE (`authenticate_after_create_user`).
-/

namespace AevumDb

open Item

namespace Handler

def roleOf (db : Db) (req : Item) : UserRole := db.authenticate ((req.stringMember "auth").getD "")

def actionOf (req : Item) : String := (req.stringMember "action").getD ""

def writeActions : List String :=
  ["create_user", "insert", "upsert", "update", "delete", "set_schema", "create_index", "compact"]

def refusals : List String :=
  ["Unauthorized: Invalid or missing API Key", "Forbidden: Insufficient RBAC privileges",
    "Forbidden: User provisioning requires ADMIN role"]

theorem hasPermission_write {role : UserRole} {action : String} (h : action ∈ writeActions)
    (hadmin : role ≠ .admin) (hrw : role = .readWrite -> action ∉ ["insert", "upsert", "update", "delete"]) :
    hasPermission role action = false := by
  simp only [writeActions, List.mem_cons, List.mem_singleton, List.not_mem_nil, or_false] at h hrw
  cases role with
  | none => rfl
  | admin => exact absurd rfl hadmin
  | readOnly => rcases h with rfl | rfl | rfl | rfl | rfl | rfl | rfl | rfl <;> rfl
  | readWrite =>
      have hrw := hrw rfl
      rcases h with rfl | rfl | rfl | rfl | rfl | rfl | rfl | rfl <;> first | rfl | simp at hrw

variable {E : PredicateEngine} {env : Env} {db : Db} {req : Item}

theorem process_unauthorized (h : roleOf db req = .none) :
    process E env db (.parsed req) = some (reply "error" "Unauthorized: Invalid or missing API Key", db) := by
  unfold process roleOf at *
  dsimp only
  rw [if_pos h]

theorem process_forbidden (hnone : roleOf db req ≠ .none) (hcu : actionOf req ≠ "create_user")
    (hperm : hasPermission (roleOf db req) (actionOf req) = false) :
    process E env db (.parsed req) = some (reply "error" "Forbidden: Insufficient RBAC privileges", db) := by
  unfold process roleOf actionOf at *
  dsimp only
  rw [if_neg hnone, if_pos ⟨hcu, hperm⟩]

theorem process_create_user_refused (hnone : roleOf db req ≠ .none) (hcu : actionOf req = "create_user")
    (hadmin : roleOf db req ≠ .admin) :
    process E env db (.parsed req) =
      some (reply "error" "Forbidden: User provisioning requires ADMIN role", db) := by
  unfold process roleOf actionOf at *
  dsimp only
  rw [if_neg hnone, hcu, if_neg (fun h => h.1 rfl), if_neg (by decide)]
  delta dispatch
  dsimp only
  rw [if_pos rfl, if_pos hadmin]
  rfl

end Handler

open Handler in
/-- A request whose key does not authenticate is refused before any Db call, find and count
included; a request for a write that its role may not make is refused before the write, with
the state unchanged, for every engine and environment. -/
theorem process_calls_only_permitted (E : PredicateEngine) (env : Env) (db : Db) (req : Item) :
    (roleOf db req = .none ->
      process E env db (.parsed req) = some (reply "error" "Unauthorized: Invalid or missing API Key", db)) ∧
    (actionOf req ∈ writeActions -> roleOf db req ≠ .admin ->
      (roleOf db req = .readWrite -> actionOf req ∉ ["insert", "upsert", "update", "delete"]) ->
      ∃ msg ∈ refusals, process E env db (.parsed req) = some (reply "error" msg, db)) := by
  refine ⟨process_unauthorized, fun hact hadmin hrw => ?_⟩
  by_cases hnone : roleOf db req = .none
  · exact ⟨_, List.mem_cons_self _ _, process_unauthorized hnone⟩
  by_cases hcu : actionOf req = "create_user"
  · exact ⟨_, by simp [refusals], process_create_user_refused hnone hcu hadmin⟩
  · exact ⟨_, by simp [refusals],
      process_forbidden hnone hcu (hasPermission_write hact hadmin hrw)⟩

/-!
## Credentials and roles
-/

/-- The roles of Db::has_permission are nested: READ_ONLY may do nothing that READ_WRITE may
not, READ_WRITE nothing that ADMIN may not, and NONE nothing at all. -/
theorem hasPermission_nested (action : String) :
    (hasPermission .readOnly action = true -> hasPermission .readWrite action = true) ∧
    (hasPermission .readWrite action = true -> hasPermission .admin action = true) ∧
    hasPermission .none action = false := by
  refine ⟨fun h => ?_, fun _ => rfl, rfl⟩
  simp only [hasPermission, Bool.or_eq_true] at h ⊢
  tauto

/-- After create_user, from any state, every non-empty key whose hash is the new key's
authenticates with the role the call parsed, and that role is never NONE: a role string other
than `admin` and `read_write` gives READ_ONLY. -/
theorem authenticate_after_create_user (env : Env) (db : Db) (key role key' : String)
    (hkey : key' ≠ "") (hhash : hashKey key' = hashKey key) :
    (db.createUser env key role).2.authenticate key' = parseRole role ∧ parseRole role ≠ .none := by
  refine ⟨?_, ?_⟩
  · rw [Db.authenticate, if_neg hkey, Db.authCache_createUser, hhash, AList.lookup_insert]
    rfl
  · unfold parseRole
    split_ifs <;> decide

-- distinct keys share a hash, so the lemma above lets `"@B"` in as the admin `"A!"`
example : hashKey "@B" = hashKey "A!" := by decide

end AevumDb
