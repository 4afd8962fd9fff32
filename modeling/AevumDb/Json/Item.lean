import Mathlib.Data.List.AList
import AevumDb.Json.Number

/-!
# cJSON items

Every document, query, schema and index record the storage controller touches
is a cJSON tree.  An item is modelled as the record of what the code reads from
a `cJSON` node: its type together with the payload that type carries (a
number's `valuedouble`, a string's `valuestring`), the member name kept in the
node itself (`string`), and its children (`child`).  Because the name lives in
the node, an array can hold named children and a scalar can hold children
after `cJSON_AddStringToObject`, exactly as in cJSON; printing drops what the
text cannot show, and `reparse` is the tree `cJSON_Parse` rebuilds from the
text `cJSON_PrintUnformatted` writes.

Item types the program never creates (`cJSON_Raw`, `cJSON_Invalid`) are left
out, and numbers are finite doubles (`Double`); printing and parsing back moves a
number as print_number's format decides (`Double.reparse`).
-/

namespace AevumDb

inductive ItemType where
  | false
  | true
  | null
  | number (valuedouble : Double)
  | string (valuestring : String)
  | array
  | object
  deriving DecidableEq, Repr

/-- A cJSON node: its type and payload, its member name, and its children. -/
structure Item where
  type : ItemType
  string : Option String
  child : List Item

namespace Item

mutual
def decEq : (a b : Item) -> Decidable (a = b)
  | ⟨t₁, s₁, c₁⟩, ⟨t₂, s₂, c₂⟩ =>
    if h : t₁ = t₂ ∧ s₁ = s₂ then
      match decEqList c₁ c₂ with
      | isTrue hc => isTrue (by obtain ⟨rfl, rfl⟩ := h; rw [hc])
      | isFalse hc => isFalse (fun e => hc (congrArg Item.child e))
    else isFalse (fun e => h ⟨congrArg Item.type e, congrArg Item.string e⟩)
  termination_by structural a => a
def decEqList : (a b : List Item) -> Decidable (a = b)
  | [], [] => isTrue rfl
  | [], _ :: _ => isFalse List.noConfusion
  | _ :: _, [] => isFalse List.noConfusion
  | a :: as, b :: bs =>
    match decEq a b, decEqList as bs with
    | isTrue h₁, isTrue h₂ => isTrue (h₁ ▸ h₂ ▸ rfl)
    | isFalse h₁, _ => isFalse (fun e => h₁ (List.head_eq_of_cons_eq e))
    | _, isFalse h₂ => isFalse (fun e => h₂ (List.tail_eq_of_cons_eq e))
  termination_by structural a => a
end

instance : DecidableEq Item := decEq

/-!
## Constructors and accessors
-/

def createArray : Item := ⟨.array, none, []⟩

def createObject : Item := ⟨.object, none, []⟩

def createString (s : String) : Item := ⟨.string s, none, []⟩

def createNumber (n : ℚ) : Item := ⟨.number (.ofRat n), none, []⟩

def createBool (b : Bool) : Item := ⟨if b then .true else .false, none, []⟩

def valuestring (x : Item) : Option String :=
  match x.type with
  | .string s => some s
  | _ => none

def isString : Option Item -> Bool
  | some ⟨.string _, _, _⟩ => true
  | _ => false

def isNumber : Option Item -> Bool
  | some ⟨.number _, _, _⟩ => true
  | _ => false

def isTrue : Option Item -> Bool
  | some ⟨.true, _, _⟩ => true
  | _ => false

/-!
## Member lookup

cJSON compares member names with `case_insensitive_strcmp`, which lowers
ASCII letters only and never matches an unnamed child.
-/

def caseFold (s : String) : List Char := s.data.map Char.toLower

def nameMatches (key : Option String) (name : String) : Bool :=
  match key with
  | some k => caseFold k == caseFold name
  | none => false

def getObjectItem (x : Item) (name : String) : Option Item :=
  x.child.find? fun c => nameMatches c.string name

def hasObjectItem (x : Item) (name : String) : Bool :=
  (x.getObjectItem name).isSome

def stringMember (x : Item) (name : String) : Option String :=
  (x.getObjectItem name).bind valuestring

def docId (x : Item) : Option String := x.stringMember "_id"

/-!
## Arrays
-/

def children : Option Item -> List Item
  | some x => x.child
  | none => []

def getArraySize (x : Option Item) : Nat := (children x).length

def addItemToArray (a : Option Item) (x : Item) : Option Item :=
  a.map fun p => { p with child := p.child ++ [x] }

def addItemToObject (o : Item) (name : String) (x : Item) : Item :=
  { o with child := o.child ++ [{ x with string := some name }] }

def addStringToObject (o : Item) (name s : String) : Item :=
  o.addItemToObject name (createString s)

def addNumberToObject (o : Item) (name : String) (n : ℚ) : Item :=
  o.addItemToObject name (createNumber n)

def addBoolToObject (o : Item) (name : String) (b : Bool) : Item :=
  o.addItemToObject name (createBool b)

def detachItemViaPointer (parent : Option Item) (x : Item) : Option Item :=
  parent.map fun p => { p with child := p.child.erase x }

theorem mem_children_addItemToArray {a : Option Item} {x d : Item}
    (h : d ∈ children (addItemToArray a x)) : d ∈ children a ∨ d = x := by
  cases a <;> simp_all [addItemToArray, children]

@[simp] theorem children_detachItemViaPointer (p : Option Item) (x : Item) :
    children (detachItemViaPointer p x) = (children p).erase x := by
  cases p <;> rfl

/-!
## Printing and parsing back

`cJSON_PrintUnformatted` prints an array's children without their names, an
object's children with theirs (an unnamed one as `""`), and a scalar without
its children.  `reparse x` is the item `cJSON_Parse` builds from that text.
-/

def reparseType : ItemType -> ItemType
  | .number d => .number d.reparse
  | t => t

mutual
/-- The tree cJSON_Parse rebuilds from the text cJSON_PrintUnformatted gives. -/
def reparse : Item -> Item
  | ⟨.array, _, cs⟩ => ⟨.array, none, reparseElements cs⟩
  | ⟨.object, _, cs⟩ => ⟨.object, none, reparseMembers cs⟩
  | ⟨t, _, _⟩ => ⟨reparseType t, none, []⟩
  termination_by structural x => x
def reparseElements : List Item -> List Item
  | [] => []
  | c :: cs => reparse c :: reparseElements cs
  termination_by structural x => x
def reparseMembers : List Item -> List Item
  | [] => []
  | c :: cs => { reparse c with string := some (c.string.getD "") } :: reparseMembers cs
  termination_by structural x => x
end

theorem reparseElements_eq (cs : List Item) : reparseElements cs = cs.map reparse := by
  induction cs with
  | nil => rfl
  | cons c cs ih => simp only [reparseElements, ih, List.map_cons]

def reparseMember (c : Item) : Item := { reparse c with string := some (c.string.getD "") }

theorem reparseMembers_eq (cs : List Item) : reparseMembers cs = cs.map reparseMember := by
  induction cs with
  | nil => rfl
  | cons c cs ih => simp only [reparseMembers, ih, List.map_cons, reparseMember]

@[simp] theorem reparse_object (k : Option String) (cs : List Item) :
    reparse ⟨.object, k, cs⟩ = ⟨.object, none, cs.map reparseMember⟩ := by
  rw [reparse, reparseMembers_eq]

@[simp] theorem reparse_array (k : Option String) (cs : List Item) :
    reparse ⟨.array, k, cs⟩ = ⟨.array, none, cs.map reparse⟩ := by
  rw [reparse, reparseElements_eq]

@[simp] theorem reparseType_string (s : String) : reparseType (.string s) = .string s := rfl

@[simp] theorem reparseType_eq_array {t : ItemType} : reparseType t = .array ↔ t = .array := by
  cases t <;> simp [reparseType]

@[simp] theorem reparseType_eq_object {t : ItemType} : reparseType t = .object ↔ t = .object := by
  cases t <;> simp [reparseType]

@[simp] theorem reparseType_eq_string {t : ItemType} {s : String} :
    reparseType t = .string s ↔ t = .string s := by
  cases t <;> simp [reparseType]

@[simp] theorem type_reparse (x : Item) : (reparse x).type = reparseType x.type := by
  rcases x with ⟨_ | _ | _ | _ | _ | _ | _, _, _⟩ <;> rfl

@[simp] theorem string_reparse (x : Item) : (reparse x).string = none := by
  rcases x with ⟨_ | _ | _ | _ | _ | _ | _, _, _⟩ <;> rfl

theorem reparse_name (x : Item) (k : Option String) :
    reparse { x with string := k } = reparse x := by
  rcases x with ⟨_ | _ | _ | _ | _ | _ | _, _, _⟩ <;> rfl

@[simp] theorem valuestring_reparse (x : Item) : (reparse x).valuestring = x.valuestring := by
  rcases x with ⟨_ | _ | _ | _ | _ | _ | _, _, _⟩ <;> rfl

@[simp] theorem valuestring_reparseMember (c : Item) : (reparseMember c).valuestring = c.valuestring :=
  valuestring_reparse c

theorem reparse_reparse (x : Item) : reparse (reparse x) = reparse x := by
  match x with
  | ⟨.array, k, cs⟩ =>
      simp only [reparse_array, List.map_map]
      congr 1
      exact List.map_congr_left fun c hc => reparse_reparse c
  | ⟨.object, k, cs⟩ =>
      simp only [reparse_object, List.map_map]
      congr 1
      refine List.map_congr_left fun c hc => ?_
      simp only [Function.comp, reparseMember, reparse_name, reparse_reparse c, string_reparse,
        Option.getD_some]
  | ⟨.number d, _, _⟩ => simp only [reparse, reparseType, Double.reparse_reparse]
  | ⟨.false, _, _⟩ | ⟨.true, _, _⟩ | ⟨.null, _, _⟩ | ⟨.string _, _, _⟩ => rfl
termination_by x
decreasing_by all_goals (simp_wf; have := List.sizeOf_lt_of_mem hc; omega)

theorem reparse_ne_of_point_three :
    reparse ((createObject.addStringToObject "_id" "a").addNumberToObject "x" (30000000000000004 / 10 ^ 17)) ≠
      (createObject.addStringToObject "_id" "a").addNumberToObject "x" (30000000000000004 / 10 ^ 17) := by
  intro hp
  have hread : (reparse ((createObject.addStringToObject "_id" "a").addNumberToObject "x"
      (30000000000000004 / 10 ^ 17))).child.map Item.type = [.string "a", .number (.ofRat (3 / 10))] := by
    rw [← Double.reparse_point_three]
    rfl
  have hwritten : ((createObject.addStringToObject "_id" "a").addNumberToObject "x"
      (30000000000000004 / 10 ^ 17)).child.map Item.type =
      [.string "a", .number (.ofRat (30000000000000004 / 10 ^ 17))] := rfl
  rw [hp, hwritten] at hread
  simp only [List.cons.injEq, ItemType.number.injEq, Double.ofRat.injEq, true_and, and_true] at hread
  norm_num at hread

/-!
## Lookups after the code's edits
-/

theorem nameMatches_getD {key : Option String} {name : String} (h : name ≠ "") :
    nameMatches (some (key.getD "")) name = nameMatches key name := by
  cases key with
  | some k => rfl
  | none =>
      have hdata : name.data ≠ [] := fun e => h (String.ext e)
      simp only [nameMatches, Option.getD_none, caseFold, beq_eq_false_iff_ne]
      exact fun e => hdata (List.map_eq_nil_iff.mp e.symm)

theorem getObjectItem_reparse_object {k : Option String} {cs : List Item} {name : String}
    (h : name ≠ "") :
    (reparse ⟨.object, k, cs⟩).getObjectItem name =
      (getObjectItem ⟨.object, k, cs⟩ name).map reparseMember := by
  have hp : (fun c : Item => nameMatches c.string name) ∘ reparseMember =
      fun c => nameMatches c.string name :=
    funext fun c => nameMatches_getD h
  simp only [reparse_object, getObjectItem, List.find?_map, hp]

theorem getObjectItem_reparse_array (k : Option String) (cs : List Item) (name : String) :
    (reparse ⟨.array, k, cs⟩).getObjectItem name = none := by
  simp only [reparse_array, getObjectItem, List.find?_eq_none, List.mem_map]
  rintro _ ⟨c, _, rfl⟩
  simp [nameMatches]

theorem stringMember_reparse_object {k : Option String} {cs : List Item} {name : String}
    (h : name ≠ "") :
    (reparse ⟨.object, k, cs⟩).stringMember name = stringMember ⟨.object, k, cs⟩ name := by
  simp only [stringMember, getObjectItem_reparse_object h]
  cases getObjectItem ⟨.object, k, cs⟩ name with
  | none => rfl
  | some c => exact valuestring_reparse c

theorem docId_reparse_of_object {d : Item} (h : d.type = .object) :
    (reparse d).docId = d.docId := by
  obtain ⟨t, k, cs⟩ := d
  cases h
  exact stringMember_reparse_object (by decide)

theorem reparse_eq_array {x : Item} {out : List Item} (h : reparse x = ⟨.array, none, out⟩) :
    exists k xs, x = ⟨.array, k, xs⟩ ∧ out = xs.map reparse := by
  obtain ⟨t, k, xs⟩ := x
  have ht : t = .array := by simpa using congrArg Item.type h
  subst ht
  simp only [reparse_array, mk.injEq, true_and] at h
  exact ⟨k, xs, rfl, h.symm⟩

theorem getObjectItem_addItemToObject (o x : Item) (n name : String) :
    (o.addItemToObject n x).getObjectItem name =
      (o.getObjectItem name).or
        (if nameMatches (some n) name then some { x with string := some n } else none) := by
  simp only [addItemToObject, getObjectItem, List.find?_append, List.find?_singleton]

theorem type_of_docId_reparse {x : Item} (h : (reparse x).docId.isSome) :
    x.type = .object := by
  match x, h with
  | ⟨.object, _, _⟩, _ => rfl
  | ⟨.array, k, cs⟩, h =>
      rw [docId, stringMember, getObjectItem_reparse_array] at h
      cases h
  | ⟨.false, _, _⟩, h | ⟨.true, _, _⟩, h | ⟨.null, _, _⟩, h | ⟨.number _, _, _⟩, h
  | ⟨.string _, _, _⟩, h =>
      simp [reparse, docId, stringMember, getObjectItem] at h

end Item

end AevumDb
