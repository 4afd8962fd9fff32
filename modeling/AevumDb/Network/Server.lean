import AevumDb.Network.Authorization

/-!
# The session loop

Handler::process returns text: a literal for each early return, and
`cJSON_PrintUnformatted` of the reply object otherwise.  Server::handle_client
sends that text and ends the session when it holds `"status":"goodbye"`
anywhere, which it takes for the reply to `exit`.

The printer is modelled after cJSON: `null`, `false`, `true`, numbers as
print_number writes them, strings escaped as print_string_ptr escapes them,
arrays and objects as their printed children between brackets, separated by
commas, a member's name printed as a string before a colon.  The early
returns' literals are the printed replies (`printUnformatted_reply`).

An authenticated `exit` that the role may make is answered with the goodbye
reply (`process_exit`).  But a stored document with a `status` member whose
value is the string `goodbye` prints the goodbye text inside every find reply
that returns it (`goodbyeMark_of_member`, `Occurs.printed_within`), and
handle_client ends that session too (`session_ends_on_stored_goodbye`).
-/

namespace AevumDb

open Item

namespace Print

def hexDigit (n : Nat) : Char := Nat.digitChar n

def escapeChar (c : Char) : List Char :=
  if c = '"' then ['\\', '"']
  else if c = '\\' then ['\\', '\\']
  else if c = '\x08' then ['\\', 'b']
  else if c = '\x0c' then ['\\', 'f']
  else if c = '\n' then ['\\', 'n']
  else if c = '\r' then ['\\', 'r']
  else if c = '\t' then ['\\', 't']
  else if c.toNat < 32 then ['\\', 'u', '0', '0', hexDigit (c.toNat / 16), hexDigit (c.toNat % 16)]
  else [c]

def printString (s : String) : List Char := '"' :: (s.data.map escapeChar).flatten ++ ['"']

def trimZeros (ds : List Char) : List Char := (ds.reverse.dropWhile (· = '0')).reverse

def fraction (ds : List Char) : List Char := if trimZeros ds = [] then [] else '.' :: trimZeros ds

def exponent (e : Int) : List Char :=
  let ds := Nat.toDigits 10 e.natAbs
  (if e < 0 then '-' else '+') :: (List.replicate (2 - ds.length) '0' ++ ds)

def formatG (p : Nat) (x : ℚ) : List Char :=
  if x = 0 then ['0'] else
  let (m, e) := significant p |x|
  let ds := Nat.toDigits 10 m
  (if x < 0 then ['-'] else []) ++
    if e < -4 ∨ p ≤ e then ds.take 1 ++ fraction (ds.drop 1) ++ 'e' :: exponent e
    else if 0 ≤ e then ds.take (e.toNat + 1) ++ fraction (ds.drop (e.toNat + 1))
    else '0' :: fraction (List.replicate (-e - 1).toNat '0' ++ ds)

def printNumber (d : Double) : List Char :=
  match d.numberFormat with
  | .int => (toString d.valueint).data
  | .g15 => formatG 15 d.val
  | .g17 => formatG 17 d.val

mutual
def printValue : Item -> List Char
  | ⟨.false, _, _⟩ => "false".data
  | ⟨.true, _, _⟩ => "true".data
  | ⟨.null, _, _⟩ => "null".data
  | ⟨.number d, _, _⟩ => printNumber d
  | ⟨.string s, _, _⟩ => printString s
  | ⟨.array, _, c⟩ => '[' :: ([','].intercalate (printElements c) ++ [']'])
  -- '\x7b' and '\x7d' are the braces of an object
  | ⟨.object, _, c⟩ => '\x7b' :: ([','].intercalate (printMembers c) ++ ['\x7d'])
  termination_by structural x => x
def printElements : List Item -> List (List Char)
  | [] => []
  | x :: xs => printValue x :: printElements xs
  termination_by structural xs => xs
def printMembers : List Item -> List (List Char)
  | [] => []
  | x :: xs => (printString (x.string.getD "") ++ ':' :: printValue x) :: printMembers xs
  termination_by structural xs => xs
end

def printUnformatted (x : Item) : String := String.mk (printValue x)

/-!
## What a printed tree contains
-/

theorem printElements_eq (c : List Item) : printElements c = c.map printValue := by
  induction c with
  | nil => rfl
  | cons x xs ih => rw [printElements, ih]; rfl

theorem printMembers_eq (c : List Item) :
    printMembers c = c.map fun x => printString (x.string.getD "") ++ ':' :: printValue x := by
  induction c with
  | nil => rfl
  | cons x xs ih => rw [printMembers, ih]; rfl

theorem infix_intercalate {sep s : List Char} {ss : List (List Char)} (h : s ∈ ss) :
    s <:+: sep.intercalate ss := by
  induction ss with
  | nil => cases h
  | cons t ts ih =>
      rcases ts with _ | ⟨t', ts⟩
      · obtain rfl := List.mem_singleton.mp h
        exact ⟨[], [], by simp [List.intercalate]⟩
      · have hcons : sep.intercalate (t :: t' :: ts) = t ++ (sep ++ sep.intercalate (t' :: ts)) := by
          simp [List.intercalate]
        rw [hcons]
        rcases List.mem_cons.mp h with rfl | h
        · exact ⟨[], _, rfl⟩
        · exact (ih h).trans ⟨t ++ sep, [], by simp⟩

theorem infix_printValue_element {x : Item} (hx : x.type = .array) {d : Item} (hd : d ∈ x.child) :
    printValue d <:+: printValue x := by
  obtain ⟨_, s, c⟩ := x
  subst hx
  have h : printValue d <:+: [','].intercalate (c.map printValue) :=
    infix_intercalate (List.mem_map_of_mem _ hd)
  rw [printValue, printElements_eq]
  exact h.trans ⟨['['], [']'], by simp⟩

theorem infix_printValue_member {x : Item} (hx : x.type = .object) {d : Item} (hd : d ∈ x.child) :
    printString (d.string.getD "") ++ ':' :: printValue d <:+: printValue x := by
  obtain ⟨_, s, c⟩ := x
  subst hx
  have h : printString (d.string.getD "") ++ ':' :: printValue d <:+: [','].intercalate
      (c.map fun x => printString (x.string.getD "") ++ ':' :: printValue x) :=
    infix_intercalate (List.mem_map_of_mem (fun x => printString (x.string.getD "") ++ ':' :: printValue x) hd)
  rw [printValue, printMembers_eq]
  exact h.trans ⟨['\x7b'], ['\x7d'], by simp⟩

inductive Occurs (d : Item) : Item -> Prop
  | self : Occurs d d
  | element {x c : Item} : x.type = .array -> c ∈ x.child -> Occurs d c -> Occurs d x
  | member {x c : Item} : x.type = .object -> c ∈ x.child -> Occurs d c -> Occurs d x

theorem Occurs.printed_within {d x : Item} (h : Occurs d x) : printValue d <:+: printValue x := by
  induction h with
  | self => exact List.infix_refl _
  | element hx hc _ ih => exact ih.trans (infix_printValue_element hx hc)
  | @member x c hx hc _ ih =>
      have hval : printValue c <:+: printString (c.string.getD "") ++ ':' :: printValue c :=
        ⟨printString (c.string.getD "") ++ [':'], [], by simp⟩
      exact ih.trans (hval.trans (infix_printValue_member hx hc))

theorem printString_plain {s : String} (h : ∀ c ∈ s.data, escapeChar c = [c]) :
    printString s = '"' :: s.data ++ ['"'] := by
  rw [printString, List.map_congr_left h]
  exact congrArg (fun l => '"' :: l ++ ['"']) (List.flatMap_singleton' s.data)

theorem printUnformatted_reply {status msg : String} (hs : ∀ c ∈ status.data, escapeChar c = [c])
    (hm : ∀ c ∈ msg.data, escapeChar c = [c]) :
    printUnformatted (Handler.reply status msg) =
      "\x7b\"status\":\"" ++ status ++ "\",\"message\":\"" ++ msg ++ "\"\x7d" := by
  have hv : printValue (Handler.reply status msg) = '\x7b' :: ((printString "status" ++ ':' ::
      printString status) ++ ',' :: (printString "message" ++ ':' :: printString msg) ++ ['\x7d']) := by
    simp [Handler.reply, addStringToObject, addItemToObject, createObject, createString, printValue,
      printMembers, List.intercalate]
  rw [printUnformatted, hv, printString_plain hs, printString_plain hm]
  apply String.ext
  simp
  rfl

end Print

namespace Server

open Print Handler

def goodbyeMark : List Char := "\"status\":\"goodbye\"".data

def find (pat : List Char) : List Char -> Option Nat
  | [] => if pat.isPrefixOf [] then some 0 else none
  | c :: s => if pat.isPrefixOf (c :: s) then some 0 else (find pat s).map (· + 1)

theorem find_isSome_iff (pat s : List Char) : (find pat s).isSome ↔ pat <:+: s := by
  induction s with
  | nil => cases pat <;> simp [find, List.isPrefixOf]
  | cons c s ih =>
      rw [find, List.infix_cons_iff, ← List.isPrefixOf_iff_prefix, ← ih]
      split <;> simp_all

def response (E : PredicateEngine) (env : Env) (db : Db) (p : Payload) : Option (String × Db) :=
  (process E env db p).map fun r => (printUnformatted r.1, r.2)

inductive Received where
  | request (env : Env) (payload : Payload)
  | closed
  | failed

def handleClient (E : PredicateEngine) : Db -> List Received -> Option (List String × Db)
  | db, [] => some ([], db)
  | db, .request env p :: rest =>
      match response E env db p with
      | none => none
      | some (text, db') =>
          if (find goodbyeMark text.data).isSome then some ([text], db')
          else (handleClient E db' rest).map fun r => (text :: r.1, r.2)
  | db, .closed :: _ => some ([], db)
  | db, .failed :: _ => some ([], db)

variable {E : PredicateEngine} {env : Env} {db db' : Db}

theorem handleClient_of_goodbye {p : Payload} {text : String} (h : response E env db p = some (text, db'))
    (hmark : goodbyeMark <:+: text.data) (rest : List Received) :
    handleClient E db (.request env p :: rest) = some ([text], db') := by
  rw [handleClient, h]
  exact if_pos ((find_isSome_iff _ _).mpr hmark)

theorem goodbyeMark_of_member {d c : Item} (hd : d.type = .object) (hc : c ∈ d.child)
    (hname : c.string = some "status") (hval : c.type = .string "goodbye") :
    goodbyeMark <:+: printValue d := by
  have hprint : printString (c.string.getD "") ++ ':' :: printValue c = goodbyeMark := by
    obtain ⟨_, _, _⟩ := c
    cases hname
    cases hval
    rfl
  exact hprint ▸ infix_printValue_member hd hc

variable {req : Item}

theorem process_exit (hact : actionOf req = "exit") (hrole : roleOf db req ≠ .none)
    (hperm : hasPermission (roleOf db req) "exit" = true) :
    process E env db (.parsed req) = some (reply "goodbye" "Closing connection", db) := by
  unfold process roleOf actionOf at *
  dsimp only
  rw [if_neg hrole, if_neg (fun h => by rw [hact] at h; simp [hperm] at h), if_pos hact]

theorem process_find (hact : actionOf req = "find") (hrole : roleOf db req ≠ .none)
    (hperm : hasPermission (roleOf db req) "find" = true) :
    process E env db (.parsed req) =
      (db.find E ((req.stringMember "collection").getD "") (req.getObjectItem "query")
        (req.getObjectItem "sort") (req.getObjectItem "projection")
        (((req.getObjectItem "limit").map valueint).getD 0)
        (((req.getObjectItem "skip").map valueint).getD 0)).map fun p =>
        (((p.1.map (createObject.addItemToObject "data")).getD createObject).addStringToObject
          "status" "ok", p.2) := by
  unfold process roleOf actionOf at *
  dsimp only
  rw [if_neg hrole, if_neg (fun h => by rw [hact] at h; simp [hperm] at h), hact,
    if_neg (by decide)]
  delta dispatch
  dsimp only
  rw [if_neg (by decide), if_neg (by decide), if_neg (by decide), if_pos rfl, Option.map_map]
  rfl

end Server

open Handler Server Print in
/-- handle_client ends a session after the reply to an authenticated `exit` that the role may
make, whatever reads follow; but it ends it as well after the reply to every find that returns a
document with a `status` member whose value is the string `goodbye`.  From the Db constructed on
an empty directory, the bootstrapped admin inserts such a document and finds it by `_id`: the
session ends after the find's reply, and the `exit` sent after it is never read. -/
theorem session_ends_on_stored_goodbye :
    (∀ (E : PredicateEngine) env db req rest, actionOf req = "exit" -> roleOf db req ≠ .none ->
      hasPermission (roleOf db req) "exit" = true ->
      handleClient E db (.request env (.parsed req) :: rest) =
        some (["\x7b\"status\":\"goodbye\",\"message\":\"Closing connection\"\x7d"], db)) ∧
    (∀ (E : PredicateEngine) env db db' req res d c rest, actionOf req = "find" ->
      roleOf db req ≠ .none -> hasPermission (roleOf db req) "find" = true ->
      db.find E ((req.stringMember "collection").getD "") (req.getObjectItem "query")
        (req.getObjectItem "sort") (req.getObjectItem "projection")
        (((req.getObjectItem "limit").map valueint).getD 0)
        (((req.getObjectItem "skip").map valueint).getD 0) = some (some res, db') ->
      res.type = .array -> d ∈ res.child -> d.type = .object -> c ∈ d.child ->
      c.string = some "status" -> c.type = .string "goodbye" ->
      ∃ text, handleClient E db (.request env (.parsed req) :: rest) = some ([text], db')) ∧
    ∀ (E : PredicateEngine) (env₀ env : Env), env.ioOk = true -> ∃ db',
      handleClient E (Db.fresh env₀)
        [.request env (.parsed ((((createObject.addStringToObject "action" "insert").addStringToObject
            "auth" "root").addStringToObject "collection" "c").addItemToObject "data"
            ((createObject.addStringToObject "_id" "d").addStringToObject "status" "goodbye"))),
          .request env (.parsed ((((createObject.addStringToObject "action" "find").addStringToObject
            "auth" "root").addStringToObject "collection" "c").addItemToObject "query"
            (createObject.addStringToObject "_id" "d"))),
          .request env (.parsed ((createObject.addStringToObject "action" "exit").addStringToObject
            "auth" "root"))] =
        some (["\x7b\"status\":\"ok\",\"message\":\"Document inserted\"\x7d",
          "\x7b\"data\":[\x7b\"_id\":\"d\",\"status\":\"goodbye\"\x7d],\"status\":\"ok\"\x7d"], db') := by
  refine ⟨fun E env db req rest hact hrole hperm => ?_,
    fun E env db db' req res d c rest hact hrole hperm hfind hres hd hobj hc hname hval => ?_,
    fun E env₀ ⟨p1, p2, now, ok⟩ hok => ?_⟩
  · have hresp : response E env db (.parsed req) =
        some ("\x7b\"status\":\"goodbye\",\"message\":\"Closing connection\"\x7d", db) := by
      rw [response, process_exit hact hrole hperm, Option.map_some',
        printUnformatted_reply (by decide) (by decide)]
      rfl
    exact handleClient_of_goodbye hresp ((find_isSome_iff _ _).mp rfl) rest
  · set reply := (createObject.addItemToObject "data" res).addStringToObject "status" "ok"
    have hresp : response E env db (.parsed req) = some (printUnformatted reply, db') := by
      rw [response, process_find hact hrole hperm, hfind]
      rfl
    have hdata : Occurs d { res with string := some "data" } := .element hres hd .self
    have hocc : Occurs d reply :=
      .member rfl (by simp [reply, addStringToObject, addItemToObject, createObject]) hdata
    exact ⟨_, handleClient_of_goodbye hresp
      ((goodbyeMark_of_member hobj hc hname hval).trans hocc.printed_within) rest⟩
  · obtain rfl : ok = true := hok
    exact ⟨_, rfl⟩

end AevumDb
