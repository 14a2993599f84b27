import LightClient.Partition

/-!
# Spellings of a URL

The text of a URL is read as that URL, so different URLs have different texts. A partition that is
accepted in some spelling is accepted in normal form too. The converse fails, since the test of a
partition does not drop trailing slashes.
-/
namespace LightClient

namespace Text

theorem dropWhile_eq_self {α : Type} {p : α → Bool} {l : List α} (h : ∀ a ∈ l.head?, p a = false) :
    l.dropWhile p = l := by
  cases l with
  | nil => rfl
  | cons a rest => simp [h a rfl]

theorem dropEndWhile_eq_self {α : Type} {p : α → Bool} {l : List α}
    (h : ∀ a ∈ l.getLast?, p a = false) : dropEndWhile p l = l := by
  rw [dropEndWhile, dropWhile_eq_self (by simpa using h), List.reverse_reverse]

/-- What is dropped at the end satisfies the test throughout. -/
theorem dropEndWhile_append {α : Type} (p : α → Bool) (l : List α) :
    ∃ dropped, l = dropEndWhile p l ++ dropped ∧ ∀ a ∈ dropped, p a = true := by
  refine ⟨(l.reverse.takeWhile p).reverse, ?_, ?_⟩
  · rw [dropEndWhile, ← List.reverse_append, List.takeWhile_append_dropWhile, List.reverse_reverse]
  · intro a ha
    exact List.all_eq_true.1 List.all_takeWhile a (List.mem_reverse.1 ha)

theorem dropEndWhile_append_of_all {α : Type} {p : α → Bool} {l dropped : List α}
    (all : ∀ a ∈ dropped, p a = true) : dropEndWhile p (l ++ dropped) = dropEndWhile p l := by
  rw [dropEndWhile, List.reverse_append, List.dropWhile_append_of_pos (by simpa using all)]
  rfl

theorem trim_eq_self {text : List Char} (h : ∀ c ∈ text, isBlank c = false) : trim text = text := by
  have start : text.dropWhile isBlank = text :=
    dropWhile_eq_self fun c hc => h c (List.mem_of_mem_head? hc)
  rw [trim, start]
  exact dropEndWhile_eq_self fun c hc => h c (List.mem_of_getLast? hc)

theorem contains_iff {part text : List Char} : contains part text = true ↔ part <:+: text := by
  induction text with
  | nil => simp [contains]
  | cons c rest ih => simp [contains, ih, List.infix_cons_iff]

/-- A run of characters that does not end in `c` is not touched by dropping `c` at the end. -/
theorem infix_of_infix_append {c : Char} {part text dropped : List Char}
    (found : part <:+: text ++ dropped) (ends : part.getLast? ≠ some c) (nonempty : part ≠ [])
    (all : ∀ d ∈ dropped, d = c) : part <:+: text := by
  obtain ⟨before, after, whole⟩ := found
  rcases List.append_eq_append_iff.1 whole with ⟨rest, inText, -⟩ | ⟨rest, reaches, inDropped⟩
  · exact ⟨before, rest, inText.symm⟩
  · rcases List.eq_nil_or_concat rest with rfl | ⟨front, d, rfl⟩
    · exact ⟨before, [], by simpa using reaches⟩
    · have last := congrArg List.getLast? reaches
      rw [List.getLast?_append, List.concat_eq_append, ← List.append_assoc,
        List.getLast?_concat, all d (by simp [inDropped])] at last
      cases final : part.getLast? with
      | none => exact absurd (List.getLast?_eq_none_iff.1 final) nonempty
      | some e => simp_all

theorem lower_append (a b : List Char) : lower (a ++ b) = lower a ++ lower b := List.map_append

theorem getLast?_lower {text : List Char} :
    (lower text).getLast? = some '/' ↔ text.getLast? = some '/' := by
  rw [lower, List.getLast?_map, Option.map_eq_some_iff]
  simp [toLower_eq_slash]

end Text

namespace Url

theorem toList_text (u : Url) :
    u.text.toList = scheme.toList ++ (u.authority.toList ++ u.path.toList) := by
  simp [text, String.toList_append, List.append_assoc]

theorem authorityOf_append_pathOf (body : List Char) : authorityOf body ++ pathOf body = body :=
  List.takeWhile_append_dropWhile

theorem authorityOf_append {authority path : List Char} (noSlash : '/' ∉ authority)
    (start : path = [] ∨ path.head? = some '/') : authorityOf (authority ++ path) = authority := by
  have inside : ∀ c ∈ authority, (c != '/') = true := by
    intro c hc
    have : c ≠ '/' := fun same => noSlash (same ▸ hc)
    simpa using this
  rw [authorityOf, List.takeWhile_append_of_pos inside]
  rcases start with none | slash
  · simp [none]
  · cases path with
    | nil => simp
    | cons c rest => simp [show c = '/' by simpa using slash]

theorem pathOf_append {authority path : List Char} (noSlash : '/' ∉ authority)
    (start : path = [] ∨ path.head? = some '/') : pathOf (authority ++ path) = path := by
  have whole := authorityOf_append_pathOf (authority ++ path)
  rw [authorityOf_append noSlash start] at whole
  exact List.append_cancel_left whole

theorem authorityOf_text (u : Url) :
    authorityOf (u.authority.toList ++ u.path.toList) = u.authority.toList :=
  authorityOf_append u.normal.no_slash u.normal.path_start

theorem pathOf_text (u : Url) : pathOf (u.authority.toList ++ u.path.toList) = u.path.toList :=
  pathOf_append u.normal.no_slash u.normal.path_start

theorem eq_of_parts {u w : Url} (authority : u.authority = w.authority) (path : u.path = w.path) :
    u = w := by
  cases u
  cases w
  simp_all

theorem text_injective {u w : Url} (h : u.text = w.text) : u = w := by
  have same := congrArg String.toList h
  rw [toList_text, toList_text] at same
  have bodies := List.append_cancel_left same
  refine eq_of_parts (String.toList_inj.1 ?_) (String.toList_inj.1 ?_)
  · rw [← authorityOf_text, bodies, authorityOf_text]
  · rw [← pathOf_text, bodies, pathOf_text]

theorem isBlank_of_mem_text (u : Url) : ∀ c ∈ u.text.toList, Text.isBlank c = false := by
  intro c hc
  rw [toList_text] at hc
  rcases List.mem_append.1 hc with hc | hc
  · have clean : scheme.toList.all (fun c => !Text.isBlank c) = true := by decide
    simpa using List.all_eq_true.1 clean c hc
  · exact u.normal.no_blank c hc

theorem getLast?_normal {authority path : List Char} (h : Normal authority path) :
    (authority ++ path).getLast? ≠ some '/' := by
  rcases List.eq_nil_or_concat path with rfl | ⟨front, c, rfl⟩
  · intro last
    exact h.no_slash (List.mem_of_getLast? (by simpa using last))
  · simpa using h.path_end

theorem getLast?_text (u : Url) : u.text.toList.getLast? ≠ some '/' := by
  have ends := getLast?_normal u.normal
  rw [toList_text, List.getLast?_append]
  cases last : (u.authority.toList ++ u.path.toList).getLast? with
  | none =>
    exact absurd (List.append_eq_nil_iff.1 (List.getLast?_eq_none_iff.1 last)).1 u.normal.nonempty
  | some c => simpa [last] using ends

theorem parse_text (u : Url) : parse u.text = .ok u := by
  have trimmed : Text.trim u.text.toList = u.text.toList := Text.trim_eq_self u.isBlank_of_mem_text
  have clean : u.text.toList.any Text.isBlank = false := by
    simpa using u.isBlank_of_mem_text
  have start : u.text.toList.take scheme.length = scheme.toList := by
    rw [toList_text, ← String.length_toList, List.take_left]
  have rest : body u.text.toList = u.authority.toList ++ u.path.toList := by
    rw [body, toList_text, ← String.length_toList, List.drop_left]
    refine Text.dropEndWhile_eq_self fun c hc => ?_
    have : c ≠ '/' := fun same => getLast?_normal u.normal (same ▸ hc)
    simpa using this
  have lowered : Text.lower scheme.toList = scheme.toList := by decide
  have authority := authorityOf_text u
  unfold parse
  simp only [trimmed, clean, start, lowered, rest, authority, pathOf_text,
    u.normal.lower, String.ofList_toList, dite_true, if_true]
  rw [dif_pos u.normal.nonempty]

/-- Reading keeps a text up to the case of letters and slashes at its end. -/
theorem lower_eq_append_slashes {trimmed : List Char}
    (start : Text.lower (trimmed.take scheme.length) = scheme.toList) :
    ∃ slashes, Text.lower trimmed = scheme.toList ++ (Text.lower (authorityOf (body trimmed))
        ++ Text.lower (pathOf (body trimmed))) ++ slashes ∧ ∀ c ∈ slashes, c = '/' := by
  obtain ⟨dropped, whole, all⟩ :=
    Text.dropEndWhile_append (· == '/') (trimmed.drop scheme.length)
  have parts := authorityOf_append_pathOf (body trimmed)
  refine ⟨Text.lower dropped, ?_, ?_⟩
  · calc
      Text.lower trimmed
          = Text.lower (trimmed.take scheme.length) ++ Text.lower (trimmed.drop scheme.length) := by
        rw [← Text.lower_append, List.take_append_drop]
      _ = scheme.toList ++ (Text.lower (body trimmed) ++ Text.lower dropped) := by
        rw [start, whole, Text.lower_append]
        rfl
      _ = _ := by
        rw [← Text.lower_append (authorityOf _), parts, List.append_assoc]
  · intro c hc
    obtain ⟨d, hd, rfl⟩ := List.mem_map.1 hc
    exact Text.toLower_eq_slash.2 (by simpa using all d hd)

theorem lower_trim_of_parse {input : String} {u : Url} (h : parse input = .ok u) :
    ∃ slashes, Text.lower (Text.trim input.toList) = Text.lower u.text.toList ++ slashes ∧
      ∀ c ∈ slashes, c = '/' := by
  unfold parse at h
  dsimp only at h
  split at h
  · split at h
    · rename_i start
      split at h
      · obtain rfl := Except.ok.inj h
        obtain ⟨slashes, whole, all⟩ := lower_eq_append_slashes start
        refine ⟨slashes, ?_, all⟩
        rw [whole, toList_text]
        simp only [String.toList_ofList, Text.lower_append, Text.lower_lower]
        rw [show Text.lower scheme.toList = scheme.toList by decide]
      · cases h
    · cases h
  · cases h

end Url

namespace Partition

theorem eq_directory_of_lower {u : Url}
    (same : Text.lower u.text.toList = Url.directory.text.toList) : u = .directory := by
  have lowered : Text.lower Url.scheme.toList = Url.scheme.toList := by decide
  rw [Url.toList_text, Url.toList_text, Text.lower_append, Text.lower_append, lowered,
    u.normal.lower] at same
  have parts := List.append_cancel_left same
  have short : u.path.toList = [] := by
    rcases u.normal.path_start with none | slash
    · exact none
    · have inside : '/' ∈ u.authority.toList ++ Text.lower u.path.toList := by
        apply List.mem_append_right
        exact List.mem_map.2 ⟨'/', List.mem_of_mem_head? slash, by decide⟩
      rw [parts] at inside
      exact absurd inside (by decide)
  apply Url.text_injective
  apply String.toList_inj.1
  rw [Url.toList_text, Url.toList_text, ← parts, short]
  rfl

/-- The directory's name is told with the slashes dropped from the end, the start of the others is
looked for without them. -/
theorem accepted_iff {partition : String} {u : Url} (parsed : Url.parse partition = .ok u) :
    accepted partition = true ↔
      (u = .directory ∧ (Text.trim partition.toList).getLast? ≠ some '/') ∨
        "acc://bvn-".toList <:+: Text.lower u.text.toList := by
  obtain ⟨slashes, whole, all⟩ := Url.lower_trim_of_parse parsed
  have ends : (Text.trim partition.toList).getLast? = some '/' ↔ slashes ≠ [] := by
    rw [← Text.getLast?_lower, whole]
    rcases List.eq_nil_or_concat slashes with rfl | ⟨front, c, rfl⟩
    · simpa [Text.getLast?_lower] using u.getLast?_text
    · simp [List.concat_eq_append, ← List.append_assoc, all c]
  have directory : Text.lower u.text.toList ++ slashes = Url.directory.text.toList ↔
      u = .directory ∧ (Text.trim partition.toList).getLast? ≠ some '/' := by
    rw [ne_eq, ends, Decidable.not_not]
    constructor
    · intro same
      have none : slashes = [] := by
        rcases List.eq_nil_or_concat slashes with none | ⟨front, c, rfl⟩
        · exact none
        · have last := congrArg List.getLast? same
          rw [List.concat_eq_append, ← List.append_assoc, List.getLast?_concat,
            all c (by simp)] at last
          exact absurd last (by decide)
      exact ⟨eq_directory_of_lower (by simpa [none] using same), none⟩
    · intro h
      obtain ⟨rfl, rfl⟩ := h
      decide
  unfold accepted
  rw [whole]
  simp only [Bool.or_eq_true, beq_iff_eq, Text.contains_iff]
  refine or_congr directory
    ⟨fun found => ?_, fun found => found.trans (List.prefix_append _ _).isInfix⟩
  exact Text.infix_of_infix_append found (by decide) (by decide) all

/-- A partition that is accepted is also accepted in normal form. -/
theorem accepted_text {partition : String} {u : Url} (h : accepted partition = true)
    (parsed : Url.parse partition = .ok u) : accepted u.text = true := by
  refine (accepted_iff u.parse_text).2 (((accepted_iff parsed).1 h).imp_left ?_)
  intro directory
  rw [Text.trim_eq_self u.isBlank_of_mem_text]
  exact ⟨directory.1, u.getLast?_text⟩

/-- A text names a partition. Spellings of the directory that end in a slash are left out. -/
structure Names (text : String) (u : Url) : Prop where
  parses : Url.parse text = .ok u
  unslashed : u = .directory → (Text.trim text.toList).getLast? ≠ some '/'

/-- All names of a partition are accepted alike. -/
theorem accepted_iff_of_names {text : String} {u : Url} (h : Names text u) :
    accepted text = true ↔ accepted u.text = true := by
  refine ⟨fun given => accepted_text given h.parses, fun normal => ?_⟩
  refine (accepted_iff h.parses).2 (((accepted_iff u.parse_text).1 normal).imp_left ?_)
  exact fun directory => ⟨directory.1, h.unslashed directory.1⟩

theorem not_blank_of_accepted {partition : String} (h : accepted partition = true) :
    Text.isBlankText partition = false := by
  unfold accepted at h
  unfold Text.isBlankText
  cases trimmed : Text.trim partition.toList with
  | nil =>
    rw [trimmed] at h
    exact absurd h (by decide)
  | cons c rest => rfl

end Partition

end LightClient
