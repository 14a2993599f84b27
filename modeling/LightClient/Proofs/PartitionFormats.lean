import LightClient.Proofs.Sample
import LightClient.Proofs.Url

/-!
# Which URLs are accepted as partitions

A block record's source partition is tested as a text: the formats are `acc://dn.acme`, and all that
contains `acc://bvn-` (sections 3 and 4.2 of the specification). What it names is known only once it
has been read as a URL. The two agree on the directory and on the partitions that hold accounts, but
what contains the start of such a partition need not be one: it may stand further on in the URL of
an account. Nothing is said here of the spellings of the directory that end in a slash.
-/
namespace LightClient

namespace Url

/-- The start of a partition that holds accounts occurs behind the scheme, in whatever case. -/
def MentionsBvn (u : Url) : Prop :=
  "acc://bvn-".toList <:+: Text.lower (u.authority.toList ++ u.path.toList)

/-- The path starts with a slash, so the authority alone tells how a URL goes on behind its
scheme. -/
theorem bvn_prefix_iff (u : Url) :
    "bvn-".toList <+: Text.lower (u.authority.toList ++ u.path.toList) ↔ u.isBvn = true := by
  rw [Text.lower_append, u.normal.lower, isBvn, List.isPrefixOf_iff_prefix]
  constructor
  · intro h
    obtain ⟨rest, whole⟩ := h
    rcases List.append_eq_append_iff.1 whole with ⟨tail, within, -⟩ | ⟨tail, reaches, beyond⟩
    · exact ⟨tail, within.symm⟩
    · cases tail with
      | nil => exact ⟨[], by simpa using reaches⟩
      | cons c tail =>
        have slash : c = '/' := by
          obtain ⟨d, path, split, rfl, -⟩ := List.map_eq_cons_iff.1 beyond
          rcases u.normal.path_start with none | slash
          · rw [none] at split
            cases split
          · rw [split, List.head?_cons, Option.some.injEq] at slash
            exact Text.toLower_eq_slash.2 slash
        have inside : '/' ∈ "bvn-".toList := by
          rw [reaches, slash]
          exact List.mem_append_right _ List.mem_cons_self
        exact absurd inside (by decide)
  · exact fun h => h.trans (List.prefix_append _ _)

/-- Within the scheme no occurrence can start but the one at its front. -/
theorem bvn_infix_text_iff (u : Url) :
    "acc://bvn-".toList <:+: Text.lower u.text.toList ↔ u.isBvn = true ∨ u.MentionsBvn := by
  have whole : Text.lower u.text.toList =
      'a' :: 'c' :: 'c' :: ':' :: '/' :: '/' ::
        Text.lower (u.authority.toList ++ u.path.toList) := by
    rw [toList_text, Text.lower_append]
    rfl
  have part : "acc://bvn-".toList = 'a' :: 'c' :: 'c' :: ':' :: '/' :: '/' :: "bvn-".toList := rfl
  rw [whole, MentionsBvn, ← bvn_prefix_iff]
  simp only [List.infix_cons_iff]
  rw [part]
  simp

theorem ne_directory_of_authority {u : Url} (foreign : u.authority ≠ directory.authority) :
    u ≠ directory := fun same => foreign (congrArg authority same)

end Url

namespace Partition

/-- A name is accepted exactly if its URL is the directory or a partition that holds accounts, or
mentions one further on. So all names of a URL are accepted or refused together, and a URL under
another authority is accepted only for what it mentions. -/
theorem accepted_by_class {text : String} {u : Url} (named : Names text u) :
    (accepted text = true ↔ u.isDirectory = true ∨ u.isBvn = true ∨ u.MentionsBvn) ∧
    (∀ other, Names other u → accepted text = accepted other) ∧
    (u.authority ≠ Url.directory.authority → u.isBvn = false →
      (accepted text = true ↔ u.MentionsBvn)) := by
  have classes : accepted text = true ↔ u.isDirectory = true ∨ u.isBvn = true ∨ u.MentionsBvn := by
    rw [accepted_iff named.parses, Url.bvn_infix_text_iff, Url.isDirectory, decide_eq_true_eq]
    exact or_congr_left (and_iff_left_of_imp named.unslashed)
  refine ⟨classes, ?_, ?_⟩
  · intro other alike
    rw [Bool.eq_iff_iff, accepted_iff_of_names named, accepted_iff_of_names alike]
  · intro foreign noBvn
    have other := Url.ne_directory_of_authority foreign
    rw [classes, noBvn]
    simp [Url.isDirectory, other]

/-- The directory, and the URL of an account with a partition's name in its path, both in other
spellings than the normal form. -/
theorem directory_and_relay_accepted :
    (Names " ACC://DN.acme" .directory ∧ accepted " ACC://DN.acme" = true) ∧
    ∃ u, Names " ACC://Relay.acme/acc://BVN-x//" u ∧ Names "acc://relay.acme/acc://BVN-x" u ∧
      u.authority = "relay.acme" ∧ u.isBvn = false ∧ u.MentionsBvn ∧
      accepted " ACC://Relay.acme/acc://BVN-x//" = true ∧
      accepted "acc://relay.acme/acc://BVN-x" = true := by
  have directory : Names " ACC://DN.acme" .directory := ⟨rfl, fun _ => by decide⟩
  refine ⟨⟨directory, (accepted_by_class directory).1.2 (.inl rfl)⟩, ?_⟩
  have read : (Url.parse " ACC://Relay.acme/acc://BVN-x//").toOption.any (fun u =>
      u.text == "acc://relay.acme/acc://BVN-x" && u.authority == "relay.acme" && !u.isBvn &&
        Text.contains "acc://bvn-".toList (Text.lower (u.authority.toList ++ u.path.toList))) =
          true := by
    decide +kernel
  obtain ⟨u, parsed, parts⟩ := Session.Sample.exists_of_any read
  simp only [Bool.and_eq_true, beq_iff_eq, Bool.not_eq_true'] at parts
  obtain ⟨⟨⟨spelled, authority⟩, noBvn⟩, mention⟩ := parts
  have mention : u.MentionsBvn := Text.contains_iff.1 mention
  have alike : Url.parse "acc://relay.acme/acc://BVN-x" = .ok u := by
    rw [← spelled]
    exact Url.parse_text u
  have foreign : u.authority ≠ Url.directory.authority := by
    rw [authority]
    decide
  have named {text : String} (parsed : Url.parse text = .ok u) : Names text u :=
    ⟨parsed, fun same => absurd same (Url.ne_directory_of_authority foreign)⟩
  obtain ⟨-, together, exactly⟩ := accepted_by_class (named parsed)
  have accepts := (exactly foreign noBvn).2 mention
  have same := together _ (named alike)
  exact ⟨u, named parsed, named alike, authority, noBvn, mention, accepts, same.symm.trans accepts⟩

/-- So the test is not that of the URL's class: an account's URL is accepted for its path. -/
theorem accepted_beyond_class : ∃ u, Url.parse "acc://relay.acme/acc://bvn-x" = .ok u ∧
    u.isDirectory = false ∧ u.isBvn = false ∧ accepted "acc://relay.acme/acc://bvn-x" = true :=
  ⟨_, rfl, by decide, by decide, by decide⟩

end Partition

end LightClient
