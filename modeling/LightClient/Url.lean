import LightClient.Text.Lower
import LightClient.Text.Quoted

/-!
# Account URLs

An account or partition is named by a URL with the scheme `acc://`, an authority and a path. A `Url`
is in normal form: the authority is in lower case, the path has no trailing slash, and no blank
occurs. Reading brings every accepted spelling into this form, so equal URLs are the same account.

Module `types::receipt` of the specification (section 10.7): `AccUrl` with `parse`, `authority`,
`path`, `is_directory` and `is_bvn`, and the errors of reading one.
-/
namespace LightClient

namespace Url

/-- What the parts of a URL in normal form satisfy. -/
structure Normal (authority path : List Char) : Prop where
  nonempty : authority ≠ []
  no_slash : '/' ∉ authority
  lower : Text.lower authority = authority
  no_blank : ∀ c ∈ authority ++ path, Text.isBlank c = false
  path_start : path = [] ∨ path.head? = some '/'
  path_end : path.getLast? ≠ some '/'

end Url

/-- A URL in normal form. -/
structure Url where
  authority : String
  /-- The path with its leading slash, or the empty text. -/
  path : String
  normal : Url.Normal authority.toList path.toList
  deriving DecidableEq

namespace Url

/-- The scheme with which every URL starts. -/
def scheme : String := "acc://"

/-- Why a text is no URL; each holds the text as it was given. -/
inductive Error where
  | wrongScheme (url : String)
  | emptyAuthority (url : String)
  | whitespace (url : String)
  deriving DecidableEq, Repr

def Error.message : Error → String
  | .wrongScheme url => "URL " ++ Text.quoted url ++ " does not use the acc:// scheme"
  | .emptyAuthority url => "URL " ++ Text.quoted url ++ " has an empty authority"
  | .whitespace url => "URL " ++ Text.quoted url ++ " contains whitespace"

/-- What follows the scheme, without trailing slashes. -/
def body (trimmed : List Char) : List Char :=
  Text.dropEndWhile (· == '/') (trimmed.drop scheme.length)

def authorityOf (body : List Char) : List Char := body.takeWhile (· != '/')

def pathOf (body : List Char) : List Char := body.dropWhile (· != '/')

theorem mem_dropEndWhile {α : Type} {p : α → Bool} {l : List α} {a : α}
    (h : a ∈ Text.dropEndWhile p l) : a ∈ l := by
  unfold Text.dropEndWhile at h
  exact List.mem_reverse.1 ((List.dropWhile_suffix p).subset (List.mem_reverse.1 h))

theorem head?_dropWhile_slash (l : List Char) :
    l.dropWhile (· != '/') = [] ∨ (l.dropWhile (· != '/')).head? = some '/' := by
  induction l with
  | nil => exact .inl rfl
  | cons c rest ih =>
    by_cases h : c = '/'
    · exact .inr (by simp [h])
    · simpa [h] using ih

theorem getLast?_body (l : List Char) :
    (Text.dropEndWhile (· == '/') l).getLast? ≠ some '/' := by
  unfold Text.dropEndWhile
  rw [List.getLast?_reverse]
  induction l.reverse with
  | nil => simp
  | cons c rest ih =>
    by_cases h : c = '/'
    · simpa [h] using ih
    · simp [h]

theorem normal_parts {trimmed : List Char} (blank : trimmed.any Text.isBlank = false)
    (nonempty : authorityOf (body trimmed) ≠ []) :
    Normal (Text.lower (authorityOf (body trimmed))) (pathOf (body trimmed)) := by
  have clean : ∀ c ∈ body trimmed, Text.isBlank c = false := by
    intro c hc
    have := List.any_eq_false.1 blank c (List.mem_of_mem_drop (mem_dropEndWhile hc))
    simpa using this
  have whole : authorityOf (body trimmed) ++ pathOf (body trimmed) = body trimmed :=
    List.takeWhile_append_dropWhile
  refine ⟨by simpa [Text.lower] using nonempty, ?_, Text.lower_lower _, ?_,
    head?_dropWhile_slash _, ?_⟩
  · intro h
    obtain ⟨c, hc, low⟩ := List.mem_map.1 h
    have := List.all_eq_true.1 List.all_takeWhile c hc
    simp [Text.toLower_eq_slash.1 low] at this
  · intro c hc
    rcases List.mem_append.1 hc with h | h
    · obtain ⟨d, hd, rfl⟩ := List.mem_map.1 h
      rw [Text.isBlank_toLower]
      exact clean d (whole ▸ List.mem_append_left _ hd)
    · exact clean c (whole ▸ List.mem_append_right _ h)
  · intro h
    refine getLast?_body (trimmed.drop scheme.length) ?_
    change (body trimmed).getLast? = some '/'
    rw [← whole, List.getLast?_append, h]
    rfl

/-- Reads a URL. Blanks around it are dropped; then a blank inside is found before a wrong scheme,
and that before an empty authority. -/
def parse (input : String) : Except Error Url :=
  let trimmed := Text.trim input.toList
  if blank : trimmed.any Text.isBlank = false then
    if Text.lower (trimmed.take scheme.length) = scheme.toList then
      if nonempty : authorityOf (body trimmed) ≠ [] then
        .ok {
          authority := String.ofList (Text.lower (authorityOf (body trimmed)))
          path := String.ofList (pathOf (body trimmed))
          normal := by
            simpa only [String.toList_ofList] using normal_parts blank nonempty }
      else .error (.emptyAuthority input)
    else .error (.wrongScheme input)
  else .error (.whitespace input)

/-- The whole URL as a text. -/
def text (u : Url) : String := scheme ++ u.authority ++ u.path

instance : ToString Url := ⟨text⟩

/-- The form that names the type, for diagnostics. -/
def describe (u : Url) : String := "AccUrl(" ++ u.text ++ ")"

theorem normal_directory : Normal "dn.acme".toList "".toList := by
  refine ⟨by decide, by decide, by decide, fun c hc => ?_, by decide, by decide⟩
  have clean : ("dn.acme".toList ++ "".toList).all (fun c => !Text.isBlank c) = true := by decide
  simpa using List.all_eq_true.1 clean c hc

/-- The partition that gathers the anchors of all others. -/
def directory : Url where
  authority := "dn.acme"
  path := ""
  normal := normal_directory

def isDirectory (u : Url) : Bool := u = directory

/-- Whether the URL lies under a partition that holds accounts. -/
def isBvn (u : Url) : Bool := "bvn-".toList.isPrefixOf u.authority.toList

end Url

end LightClient
