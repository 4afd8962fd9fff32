import AevumDb.Storage.Recovery

/-!
# Runs of the database

A run starts from the `Db` constructed on an empty data directory and applies
the public mutating calls one after the other, each under the writer lock.
The reachable states are those of every run whose steps an admission
predicate allows: the theorems restrict runs (to successful writes, or to
inserts of fresh `_id`s) only through it.
-/

namespace AevumDb

inductive Call where
  | insert (coll : String) (data : Item)
  | upsert (coll : String) (query data : Item)
  | update (coll : String) (query data : Item)
  | remove (coll : String) (query : Item)
  | createIndex (coll field : String)
  | setSchema (coll : String) (schema : Item)
  | createUser (key role : String)
  | triggerCompaction (coll : String)

def Call.target : Call -> String
  | .insert coll _ | .upsert coll _ _ | .update coll _ _ | .remove coll _ => coll
  | .createIndex _ _ => "_indexes"
  | .setSchema _ _ => "_schemas"
  | .createUser _ _ => "_auth"
  | .triggerCompaction coll => coll

namespace Db

def call (E : PredicateEngine) (env : Env) (db : Db) : Call -> Option (Bool × Db)
  | .insert coll data => db.insert E env coll data
  | .upsert coll query data => db.upsert E env coll query data
  | .update coll query data => db.update E env coll query data
  | .remove coll query => db.remove E env coll query
  | .createIndex coll field => some (db.createIndex env coll field)
  | .setSchema coll schema => some (db.setSchema env coll schema)
  | .createUser key role => some (db.createUser env key role)
  | .triggerCompaction coll => some (db.triggerCompaction env coll)

def fresh (env : Env) : Db := ((onDisk ∅).createUser env "root" "admin").2

def runCalls (E : PredicateEngine) (env : Env) (db : Db) : List Call -> Option Db
  | [] => some db
  | c :: cs => (db.call E env c).bind fun r => runCalls E env r.2 cs

end Db

inductive Reachable (E : PredicateEngine) (allowed : Db -> Env -> Call -> Prop) : Db -> Prop
  | fresh (env : Env) : Reachable E allowed (Db.fresh env)
  | call (env : Env) (c : Call) {db db' : Db} {r : Bool} :
      Reachable E allowed db -> allowed db env c -> db.call E env c = some (r, db') ->
      Reachable E allowed db'

def anyCall : Db -> Env -> Call -> Prop := fun _ _ _ => True

def succeeding : Db -> Env -> Call -> Prop := fun _ env _ => env.ioOk = true

theorem Reachable.induct_on {E : PredicateEngine} {allowed : Db -> Env -> Call -> Prop}
    {P : Db -> Prop} (hfresh : ∀ env, P (Db.fresh env))
    (hcall : ∀ db db' env c r, P db -> allowed db env c -> db.call E env c = some (r, db') -> P db')
    {db : Db} (h : Reachable E allowed db) : P db := by
  induction h with
  | fresh env => exact hfresh env
  | call env c _ hallow hstep ih => exact hcall _ _ _ _ _ ih hallow hstep

theorem Reachable.mono {E : PredicateEngine} {allowed allowed' : Db -> Env -> Call -> Prop}
    (hallow : ∀ db env c, allowed db env c -> allowed' db env c) {db : Db}
    (h : Reachable E allowed db) : Reachable E allowed' db := by
  induction h with
  | fresh env => exact .fresh env
  | call env c _ hc hstep ih => exact .call env c ih (hallow _ _ _ hc) hstep

theorem Reachable.runCalls {E : PredicateEngine} {allowed : Db -> Env -> Call -> Prop} {env : Env}
    {cs : List Call} (hallow : ∀ db, ∀ c ∈ cs, allowed db env c) {db db' : Db}
    (h : Reachable E allowed db) (hrun : Db.runCalls E env db cs = some db') :
    Reachable E allowed db' := by
  induction cs generalizing db with
  | nil => exact Option.some.inj hrun ▸ h
  | cons c cs ih =>
      obtain ⟨⟨r, db₁⟩, h₁, hrun⟩ := Option.bind_eq_some.mp hrun
      exact ih (fun db c hc => hallow db c (List.mem_cons_of_mem _ hc))
        (.call env c h (hallow _ c (List.mem_cons_self _ _)) h₁) hrun

end AevumDb
