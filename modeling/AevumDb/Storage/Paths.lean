import Mathlib.Data.List.Basic

/-!
# Collection files

Engine::get_path names a collection's log by concatenation,
`base_path_ + "/" + collection + ".aev"`, and Engine::list_collections reports
the stem of every regular file of the data directory whose extension is
`.aev`, as `std::filesystem` decomposes a file name.  Nothing between the
request handler and the engine checks a collection name.  A non-empty name
without `/` names a file directly in the data directory that is listed under
that name (`getPath_listed`).  The empty name names the file `.aev`, which has
no extension and is never listed; a name with `..` names a file outside the
directory, and a name with `/` one in a subdirectory
(`getPath_unlisted_or_outside`).

Paths are resolved lexically and relative: a component `""` or `"."` names
nothing, and `".."` removes the component before it.
-/

namespace AevumDb

namespace Engine

def getPath (basePath collection : String) : String := basePath ++ "/" ++ collection ++ ".aev"

def fileName (p : String) : String := String.mk (p.data.reverse.takeWhile (· ≠ '/')).reverse

def extension (name : String) : String :=
  let tail := (name.data.reverse.takeWhile (· ≠ '.')).reverse
  if name = ".." ∨ name.length ≤ tail.length + 1 then "" else String.mk ('.' :: tail)

def stem (name : String) : String := String.mk (name.data.take (name.length - (extension name).length))

def listCollections (files : List String) : List String :=
  files.filterMap fun f => if extension f = ".aev" then some (stem f) else none

def components (p : String) : List String := (p.data.splitOn '/').map String.mk

def resolveStep (acc : List String) (c : String) : List String :=
  if c = "" ∨ c = "." then acc
  else if c = ".." then
    match acc with
    | d :: rest => if d = ".." then c :: acc else rest
    | [] => [c]
  else c :: acc

def resolve (p : String) : List String := ((components p).foldl resolveStep []).reverse

/-!
## Names without a separator
-/

theorem splitOn_append_sep {xs ys : List Char} :
    (xs ++ '/' :: ys).splitOn '/' = xs.splitOn '/' ++ ys.splitOn '/' := by
  induction xs with
  | nil => simp [List.splitOn]
  | cons x xs ih =>
      simp only [List.cons_append, List.splitOn] at ih ⊢
      rw [List.splitOnP_cons, List.splitOnP_cons, ih]
      split
      · rfl
      · obtain ⟨s, rest, hs⟩ := List.exists_cons_of_ne_nil (List.splitOnP_ne_nil (· == '/') xs)
        rw [hs]
        rfl

theorem data_getPath (basePath c : String) :
    (getPath basePath c).data = basePath.data ++ '/' :: (c.data ++ ['.', 'a', 'e', 'v']) := by
  simp [getPath]

theorem splitOn_append_aev {c : String} (hslash : '/' ∉ c.data) :
    (c.data ++ ['.', 'a', 'e', 'v']).splitOn '/' = [c.data ++ ['.', 'a', 'e', 'v']] :=
  List.splitOnP_eq_single _ _ fun x hx hsep => by
    obtain rfl := beq_iff_eq.mp hsep
    simp only [List.mem_append, List.mem_cons, List.not_mem_nil] at hx
    rcases hx with hx | hx <;> simp_all

theorem components_getPath (basePath : String) {c : String} (hslash : '/' ∉ c.data) :
    components (getPath basePath c) = components basePath ++ [c ++ ".aev"] := by
  rw [components, data_getPath, splitOn_append_sep, splitOn_append_aev hslash, List.map_append, components]
  rfl

theorem length_append_aev (c : String) : (c ++ ".aev").length = c.length + 4 := by
  rw [String.length_append]
  rfl

theorem extension_append_aev {c : String} (hne : c ≠ "") :
    extension (c ++ ".aev") = ".aev" ∧ stem (c ++ ".aev") = c := by
  have hlen : 0 < c.length := by
    rcases c with ⟨_ | ⟨a, cs⟩⟩
    · exact absurd rfl hne
    · exact Nat.succ_pos _
  have htail : ((c ++ ".aev").data.reverse.takeWhile (· ≠ '.')).reverse = ['a', 'e', 'v'] := by
    simp [List.takeWhile]
  have hext : extension (c ++ ".aev") = ".aev" := by
    rw [extension]
    simp only [htail]
    rw [if_neg]
    have h2 : "..".length = 2 := rfl
    have h4 := length_append_aev c
    rintro (h | h)
    · have := congrArg String.length h
      omega
    · simp only [List.length_cons, List.length_nil] at h
      omega
  refine ⟨hext, ?_⟩
  have h4 : ".aev".length = 4 := rfl
  rw [stem, hext, length_append_aev, h4, Nat.add_sub_cancel, String.data_append]
  exact congrArg String.mk (List.take_left' rfl)

theorem fileName_getPath (basePath : String) {c : String} (hslash : '/' ∉ c.data) :
    fileName (getPath basePath c) = c ++ ".aev" := by
  have hfile : ∀ x ∈ (c.data ++ ['.', 'a', 'e', 'v']).reverse, (x ≠ '/' : Bool) := by
    intro x hx
    simp only [List.mem_reverse, List.mem_append, List.mem_cons, List.not_mem_nil] at hx
    rcases hx with hx | hx
    · exact decide_eq_true fun e => hslash (e ▸ hx)
    · rcases hx with rfl | rfl | rfl | rfl | h <;> first | rfl | exact absurd h id
  rw [fileName, data_getPath, List.reverse_append, List.reverse_cons, List.append_assoc,
    List.takeWhile_append_of_pos hfile]
  simp [List.takeWhile]
  rfl

theorem append_aev_ne (c : String) : c ++ ".aev" ≠ "" ∧ c ++ ".aev" ≠ "." ∧ c ++ ".aev" ≠ ".." := by
  have h4 := length_append_aev c
  have h0 : "".length = 0 := rfl
  have h1 : ".".length = 1 := rfl
  have h2 : "..".length = 2 := rfl
  refine ⟨fun h => ?_, fun h => ?_, fun h => ?_⟩ <;>
    · have := congrArg String.length h
      omega

theorem resolveStep_append_aev (acc : List String) (c : String) :
    resolveStep acc (c ++ ".aev") = (c ++ ".aev") :: acc := by
  obtain ⟨h0, h1, h2⟩ := append_aev_ne c
  simp [resolveStep, h0, h1, h2]

theorem getPath_listed (basePath : String) {c : String} (hne : c ≠ "") (hslash : '/' ∉ c.data) :
    resolve (getPath basePath c) = resolve basePath ++ [c ++ ".aev"] ∧
    fileName (getPath basePath c) = c ++ ".aev" ∧ listCollections [c ++ ".aev"] = [c] := by
  refine ⟨?_, ?_, ?_⟩
  · rw [resolve, components_getPath _ hslash, List.foldl_append, List.foldl_cons, List.foldl_nil,
      resolveStep_append_aev, List.reverse_cons, resolve]
  · exact fileName_getPath basePath hslash
  · simp [listCollections, (extension_append_aev hne).1, (extension_append_aev hne).2]

theorem listCollections_cons (f : String) (fs : List String) :
    listCollections (f :: fs) = listCollections [f] ++ listCollections fs := by
  simp only [listCollections, List.filterMap_cons, List.filterMap_nil]
  split <;> rfl

theorem listCollections_append_aev {ks : List String} (hks : ∀ k ∈ ks, '/' ∉ k.data) :
    listCollections (ks.map (· ++ ".aev")) = ks.filter (· ≠ "") := by
  induction ks with
  | nil => rfl
  | cons k ks ih =>
      rw [List.map_cons, listCollections_cons, ih fun k' hk' => hks k' (List.mem_cons_of_mem k hk')]
      by_cases hk : k = ""
      · subst hk
        rw [show listCollections ["" ++ ".aev"] = [] by decide, List.filter_cons_of_neg (by simp)]
        rfl
      · rw [(getPath_listed "" hk (hks k (List.mem_cons_self k ks))).2.2,
          List.filter_cons_of_pos (by simpa using hk)]
        rfl

/-!
## Names the handler passes unchecked
-/

/-- The empty name, which the handler passes for a request without `collection`, names the file
`.aev` in every data directory: it has no extension, and list_collections never reports it.  In
the default data directory, `../x` names the file `x.aev` beside the directory, and `a/b` a file in
its subdirectory `a`. -/
theorem getPath_unlisted_or_outside :
    (∀ basePath, fileName (getPath basePath "") = ".aev" ∧
      listCollections [fileName (getPath basePath "")] = []) ∧
    resolve "./aevum_data" = ["aevum_data"] ∧
    resolve (getPath "./aevum_data" "../x") = ["x.aev"] ∧
    resolve (getPath "./aevum_data" "a/b") = ["aevum_data", "a", "b.aev"] := by
  refine ⟨fun basePath => ?_, by decide, by decide, by decide⟩
  rw [fileName_getPath basePath (by decide)]
  exact ⟨rfl, by decide⟩

/-!
## The file a name reaches
-/

/-- The file Engine::get_path gives `collection`, resolved against the data directory and
without its `.aev`: two names reach one file exactly when they have one `fileKey`. -/
def fileKey (collection : String) : String :=
  let path := "/".intercalate (resolve (collection ++ ".aev"))
  String.mk (path.data.take (path.length - 4))

theorem resolve_append_aev {c : String} (hslash : '/' ∉ c.data) : resolve (c ++ ".aev") = [c ++ ".aev"] := by
  have hcomp : components (c ++ ".aev") = [c ++ ".aev"] := by
    rw [components, String.data_append, show ".aev".data = ['.', 'a', 'e', 'v'] from rfl,
      splitOn_append_aev hslash]
    rfl
  rw [resolve, hcomp, List.foldl_cons, List.foldl_nil, resolveStep_append_aev]
  rfl

theorem fileKey_of_slashFree {c : String} (hslash : '/' ∉ c.data) : fileKey c = c := by
  have hlen : (c ++ ".aev").length - 4 = c.length := by rw [length_append_aev]; rfl
  simp only [fileKey, resolve_append_aev hslash]
  show String.mk ((c ++ ".aev").data.take ((c ++ ".aev").length - 4)) = c
  rw [hlen, String.data_append, List.take_left' (show c.data.length = c.length from rfl)]

example : fileKey "./items" = "items" ∧ fileKey "../x" = "../x" ∧ fileKey "a/b" = "a/b" := by decide

end Engine

end AevumDb
