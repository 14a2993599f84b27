import LightClient.Bytes
import LightClient.Proofs.Url

/-!
# The grammar of URLs

A text is read as a URL exactly if it consists, between blanks, of the scheme, an authority, a path
and slashes, and every other text is refused for the first of three flaws. The grammar is told in
characters. Reading by byte offsets comes to the same, since no offset that it cuts at falls inside
a character, so the text of a URL is its normal form and every spelling can be told from it.
-/
namespace LightClient

namespace Text

/-- The text cut at a byte offset. There is no cut inside a character or behind the end. -/
def cutAt? : Nat → List Char → Option (List Char × List Char)
  | 0, text => some ([], text)
  | _ + 1, [] => none
  | offset + 1, c :: rest =>
    if c.utf8Size ≤ offset + 1 then
      (cutAt? (offset + 1 - c.utf8Size) rest).map fun (before, after) => (c :: before, after)
    else none

/-- The offset of the first byte that is a slash. -/
def slashOffset? (text : List Char) : Option Nat :=
  (text.flatMap String.utf8EncodeChar).findIdx? (· == 0x2f)

@[simp] theorem cutAt?_zero (text : List Char) : cutAt? 0 text = some ([], text) := by
  cases text <;> rfl

theorem cutAt?_cons (c : Char) (offset : Nat) (rest : List Char) :
    cutAt? (offset + c.utf8Size) (c :: rest) =
      (cutAt? offset rest).map fun (before, after) => (c :: before, after) := by
  have pos := c.utf8Size_pos
  obtain ⟨n, size⟩ : ∃ n, offset + c.utf8Size = n + 1 := ⟨offset + c.utf8Size - 1, by omega⟩
  have left : n + 1 - c.utf8Size = offset := by omega
  rw [size, cutAt?, if_pos (by omega), left]

theorem cutAt?_of_ascii {before : List Char} (after : List Char)
    (ascii : ∀ c ∈ before, c.utf8Size = 1) :
    cutAt? before.length (before ++ after) = some (before, after) := by
  induction before with
  | nil => simp
  | cons c rest ih =>
    have cut := cutAt?_cons c rest.length (rest ++ after)
    rw [ascii c List.mem_cons_self, ih fun d hd => ascii d (List.mem_cons_of_mem _ hd)] at cut
    exact cut

theorem eq_append_of_cutAt? {offset : Nat} {text before after : List Char}
    (h : cutAt? offset text = some (before, after)) : text = before ++ after := by
  induction text generalizing offset before with
  | nil =>
    cases offset with
    | zero =>
      obtain ⟨rfl, rfl⟩ := Prod.mk.inj (Option.some.inj ((cutAt?_zero _).symm.trans h))
      rfl
    | succ offset => cases h
  | cons c rest ih =>
    cases offset with
    | zero =>
      obtain ⟨rfl, rfl⟩ := Prod.mk.inj (Option.some.inj ((cutAt?_zero _).symm.trans h))
      rfl
    | succ offset =>
      rw [cutAt?] at h
      split at h
      · obtain ⟨⟨inner, after'⟩, cut, same⟩ := Option.map_eq_some_iff.1 h
        obtain ⟨rfl, rfl⟩ := Prod.mk.inj same
        rw [ih cut, List.cons_append]
      · cases h

/-- In UTF-8 the byte of a slash stands for nothing else and is no part of another character. -/
theorem slash_mem_utf8EncodeChar {c : Char} : 0x2f ∈ String.utf8EncodeChar c ↔ c = '/' := by
  constructor
  · intro mem
    obtain ⟨-, same⟩ := Bytes.utf8EncodeChar_of_mem mem (by decide)
    exact Char.toNat_inj.1 same
  · rintro rfl
    decide

theorem utf8Size_of_toLower {c : Char} (ascii : c.toLower.toNat ≤ 127) : c.utf8Size = 1 := by
  rw [Char.utf8Size_eq_one_iff, UInt32.le_iff_toNat_le]
  change c.toNat ≤ 127
  rw [toNat_toLower] at ascii
  split at ascii <;> omega

end Text

namespace Url
open Text

/-- The authority and the path of what follows the scheme, cut at the offset of the first slash. -/
def cutParts? (body : List Char) : Option (List Char × List Char) :=
  match slashOffset? body with
  | some offset => cutAt? offset body
  | none => some (body, [])

/-- The parts of a URL's text, cut by byte offsets. -/
def partsAt? (text : String) : Option (List Char × List Char) := do
  let (_, rest) ← cutAt? scheme.utf8ByteSize text.toList
  cutParts? rest

/-- Reads a text by byte offsets as the text of a URL in normal form. There is no result if the text
would have to be cut inside a character, except that a text too short or with such a character in
the place of the scheme is one of another scheme. -/
def parseAt? (input : String) : Option (Except Error String) :=
  let trimmed := trim input.toList
  if trimmed.any isBlank then some (.error (.whitespace input))
  else
    match cutAt? scheme.utf8ByteSize trimmed with
    | none => some (.error (.wrongScheme input))
    | some (start, rest) =>
      if lower start = scheme.toList then do
        let (authority, path) ← cutParts? (dropEndWhile (· == '/') rest)
        if authority = [] then return .error (.emptyAuthority input)
        else return .ok (scheme ++ String.ofList (lower authority) ++ String.ofList path)
      else some (.error (.wrongScheme input))

/-- No first slash falls inside a character. -/
theorem cutParts?_eq (body : List Char) :
    cutParts? body = some (authorityOf body, pathOf body) := by
  induction body with
  | nil => rfl
  | cons c rest ih =>
    by_cases slash : c = '/'
    · subst slash
      rfl
    · have absent : (String.utf8EncodeChar c).findIdx? (· == 0x2f) = none := by
        refine List.findIdx?_eq_none_iff.2 fun b hb => ?_
        have other : b ≠ 0x2f := fun same => slash (slash_mem_utf8EncodeChar.1 (same ▸ hb))
        simpa using other
      have offset : slashOffset? (c :: rest) =
          (slashOffset? rest).map fun offset => offset + c.utf8Size := by
        rw [slashOffset?, List.flatMap_cons, List.findIdx?_append, absent, Option.none_or,
          String.length_utf8EncodeChar]
        rfl
      have first : (c != '/') = true := by simpa using slash
      have authority : authorityOf (c :: rest) = c :: authorityOf rest := by
        rw [authorityOf, List.takeWhile_cons, if_pos first]
        rfl
      have path : pathOf (c :: rest) = pathOf rest := by
        rw [pathOf, List.dropWhile_cons, if_pos first]
        rfl
      rw [authority, path]
      unfold cutParts? at ih ⊢
      rw [offset]
      cases found : slashOffset? rest with
      | none =>
        rw [found] at ih
        obtain ⟨whole, none⟩ := Prod.mk.inj (Option.some.inj ih)
        rw [← whole, ← none]
        rfl
      | some offset =>
        rw [found] at ih
        dsimp only [Option.map_some] at ih ⊢
        rw [cutAt?_cons, ih]
        rfl

/-- The scheme has as many bytes as characters, and so has every text that is it in lower case. -/
theorem cutAt?_scheme {start : List Char} (rest : List Char) (same : lower start = scheme.toList) :
    cutAt? scheme.utf8ByteSize (start ++ rest) = some (start, rest) := by
  have length : scheme.utf8ByteSize = start.length := by
    rw [← List.length_map Char.toLower]
    change _ = (lower start).length
    rw [same]
    rfl
  have ascii : ∀ c ∈ start, c.utf8Size = 1 := by
    intro c hc
    have letters : scheme.toList.all (·.toNat ≤ 127) = true := by decide
    have member : c.toLower ∈ scheme.toList := same ▸ List.mem_map_of_mem hc
    exact utf8Size_of_toLower (of_decide_eq_true (List.all_eq_true.1 letters _ member))
  rw [length]
  exact cutAt?_of_ascii rest ascii

/-- A text is the scheme in any case, a body that does not end in a slash, and slashes. -/
structure Framed (text body : List Char) : Prop where
  split : ∃ start slashes, text = start ++ (body ++ slashes) ∧ lower start = scheme.toList ∧
    ∀ c ∈ slashes, c = '/'
  ends : body.getLast? ≠ some '/'

/-- A text spells a URL with an authority, in any case, and a path. -/
structure Spelled (text authority path : List Char) : Prop where
  framed : Framed text (authority ++ path)
  nonempty : authority ≠ []
  no_slash : '/' ∉ authority
  path_start : path = [] ∨ path.head? = some '/'

/-- What a text is read as: the URL that it spells between blanks, or the first flaw that it has. -/
inductive Reads (input : String) : Except Error Url → Prop
  | whitespace (blank : ∃ c ∈ trim input.toList, isBlank c = true) :
      Reads input (.error (.whitespace input))
  | wrongScheme (clean : ∀ c ∈ trim input.toList, isBlank c = false)
      (other : ∀ start rest, trim input.toList = start ++ rest → lower start ≠ scheme.toList) :
      Reads input (.error (.wrongScheme input))
  | emptyAuthority (clean : ∀ c ∈ trim input.toList, isBlank c = false) {body : List Char}
      (framed : Framed (trim input.toList) body) (bare : body = [] ∨ body.head? = some '/') :
      Reads input (.error (.emptyAuthority input))
  | url (clean : ∀ c ∈ trim input.toList, isBlank c = false) {authority path : List Char}
      (spelled : Spelled (trim input.toList) authority path) {u : Url}
      (lowered : u.authority.toList = lower authority) (kept : u.path.toList = path) :
      Reads input (.ok u)

theorem take_scheme {start : List Char} (rest : List Char) (same : lower start = scheme.toList) :
    (start ++ rest).take scheme.length = start ∧ (start ++ rest).drop scheme.length = rest := by
  have length : scheme.length = start.length := by
    rw [← String.length_toList, ← same, lower, List.length_map]
  rw [length]
  exact ⟨List.take_left, List.drop_left⟩

theorem Framed.start {text body : List Char} (h : Framed text body) :
    lower (text.take scheme.length) = scheme.toList := by
  obtain ⟨start, slashes, rfl, same, -⟩ := h.split
  rw [(take_scheme _ same).1, same]

theorem Framed.cut {text body : List Char} (h : Framed text body) :
    cutAt? scheme.utf8ByteSize text =
      some (text.take scheme.length, text.drop scheme.length) := by
  have cut := cutAt?_scheme (text.drop scheme.length) h.start
  rwa [List.take_append_drop] at cut

/-- The body of a text is told by the text. -/
theorem Framed.body {text body : List Char} (h : Framed text body) : Url.body text = body := by
  obtain ⟨start, slashes, rfl, same, all⟩ := h.split
  have dropped : ∀ c ∈ slashes, (c == '/') = true := by simpa using all
  have kept : ∀ c ∈ body.getLast?, (c == '/') = false := by
    intro c hc
    have : c ≠ '/' := fun slash => h.ends (slash ▸ hc)
    simpa using this
  rw [Url.body, (take_scheme _ same).2, dropEndWhile_append_of_all dropped,
    dropEndWhile_eq_self kept]

theorem framed_body {text : List Char} (start : lower (text.take scheme.length) = scheme.toList) :
    Framed text (Url.body text) := by
  obtain ⟨slashes, whole, all⟩ := dropEndWhile_append (· == '/') (text.drop scheme.length)
  refine ⟨⟨text.take scheme.length, slashes, ?_, start, by simpa using all⟩, getLast?_body _⟩
  exact (List.take_append_drop _ _).symm.trans (congrArg _ whole)

theorem Spelled.parts {text authority path : List Char} (h : Spelled text authority path) :
    authorityOf (Url.body text) = authority ∧ pathOf (Url.body text) = path := by
  rw [h.framed.body]
  exact ⟨authorityOf_append h.no_slash h.path_start, pathOf_append h.no_slash h.path_start⟩

theorem authorityOf_eq_nil {body : List Char} :
    authorityOf body = [] ↔ body = [] ∨ body.head? = some '/' := by
  cases body with
  | nil => simp [authorityOf]
  | cons c rest => by_cases slash : c = '/' <;> simp [authorityOf, slash]

theorem slash_notMem_authorityOf (body : List Char) : '/' ∉ authorityOf body := by
  intro member
  have := List.all_eq_true.1 List.all_takeWhile _ member
  simp at this

/-- Reading is a function of the grammar. -/
theorem parse_iff_reads {input : String} {result : Except Error Url} :
    parse input = result ↔ Reads input result := by
  constructor
  · rintro rfl
    unfold parse
    dsimp only
    split
    · rename_i clean
      have clean : ∀ c ∈ trim input.toList, isBlank c = false := by simpa using clean
      split
      · rename_i start
        have framed := framed_body start
        split
        · rename_i nonempty
          refine .url clean ⟨?_, nonempty, slash_notMem_authorityOf _, ?_⟩ String.toList_ofList
            String.toList_ofList
          · rwa [authorityOf_append_pathOf]
          · exact head?_dropWhile_slash _
        · rename_i none
          exact .emptyAuthority clean framed (authorityOf_eq_nil.1 (Decidable.not_not.1 none))
      · rename_i other
        refine .wrongScheme clean fun start rest whole same => other ?_
        rw [whole, (take_scheme rest same).1, same]
    · rename_i blank
      exact .whitespace (by simpa using blank)
  · intro h
    unfold parse
    dsimp only
    cases h with
    | whitespace blank =>
      have blank : ¬ (trim input.toList).any isBlank = false := by simpa using blank
      rw [dif_neg blank]
    | wrongScheme clean other =>
      have start : ¬ lower ((trim input.toList).take scheme.length) = scheme.toList :=
        other _ _ (List.take_append_drop _ _).symm
      rw [dif_pos (by simpa using clean), if_neg start]
    | emptyAuthority clean framed bare =>
      have none : ¬ authorityOf (body (trim input.toList)) ≠ [] := by
        rw [framed.body]
        simpa using authorityOf_eq_nil.2 bare
      rw [dif_pos (by simpa using clean), if_pos framed.start, dif_neg none]
    | @url clean authority path spelled u lowered kept =>
      have nonempty : authorityOf (body (trim input.toList)) ≠ [] := by
        rw [spelled.parts.1]
        exact spelled.nonempty
      rw [dif_pos (by simpa using clean), if_pos spelled.framed.start, dif_pos nonempty]
      refine congrArg Except.ok (eq_of_parts (String.toList_inj.1 ?_) (String.toList_inj.1 ?_))
      · rw [lowered, String.toList_ofList, spelled.parts.1]
      · rw [kept, String.toList_ofList, spelled.parts.2]

/-- Cutting at byte offsets never fails and finds the same. -/
theorem parseAt?_eq (input : String) : parseAt? input = some ((parse input).map text) := by
  have reads := parse_iff_reads.1 (Eq.refl (parse input))
  generalize parse input = result at reads
  unfold parseAt?
  dsimp only
  cases reads with
  | whitespace blank =>
    rw [if_pos (by simpa using blank)]
    rfl
  | wrongScheme clean other =>
    rw [if_neg (by simpa using clean)]
    cases cut : cutAt? scheme.utf8ByteSize (trim input.toList) with
    | none => rfl
    | some parts =>
      dsimp only
      rw [if_neg (other _ _ (eq_append_of_cutAt? cut))]
      rfl
  | @emptyAuthority clean body framed bare =>
    rw [if_neg (by simpa using clean), framed.cut]
    dsimp only
    rw [if_pos framed.start]
    change (cutParts? (Url.body (trim input.toList))).bind _ = _
    rw [cutParts?_eq, framed.body, authorityOf_eq_nil.2 bare]
    rfl
  | @url clean authority path spelled u lowered kept =>
    rw [if_neg (by simpa using clean), spelled.framed.cut]
    dsimp only
    rw [if_pos spelled.framed.start]
    change (cutParts? (Url.body (trim input.toList))).bind _ = _
    rw [cutParts?_eq, spelled.parts.1, spelled.parts.2]
    dsimp only [Option.bind_some]
    rw [if_neg spelled.nonempty, ← lowered, ← kept, String.ofList_toList, String.ofList_toList]
    rfl

theorem partsAt?_text (u : Url) : partsAt? u.text = some (u.authority.toList, u.path.toList) := by
  have lowered : lower scheme.toList = scheme.toList := by decide
  have cut := cutAt?_scheme (u.authority.toList ++ u.path.toList) lowered
  unfold partsAt?
  rw [toList_text, cut]
  change cutParts? _ = _
  rw [cutParts?_eq, authorityOf_text, pathOf_text]

/-- A URL has the authority of every text that is read as it, in lower case, and the path of the
text. -/
theorem parts_of_parse {input : String} {u : Url} {authority path : List Char}
    (parsed : parse input = .ok u) (spelled : Spelled (trim input.toList) authority path) :
    u.authority.toList = lower authority ∧ u.path.toList = path := by
  cases parse_iff_reads.1 parsed with
  | url _ own lowered kept =>
    rw [lowered, kept, ← own.parts.1, ← own.parts.2, spelled.parts.1, spelled.parts.2]
    exact ⟨rfl, rfl⟩

/-- Every text is read as its grammar says, and reading it by byte offsets neither cuts a character
nor finds anything else. The text of a URL is read as this URL, of which it shows the two parts
behind the scheme. Two texts are read as one URL exactly if they spell one authority, up to the case
of letters, and the same path. -/
theorem parse_follows_grammar :
    (∀ input result, parse input = result ↔ Reads input result) ∧
    (∀ input, parseAt? input = some ((parse input).map text)) ∧
    (∀ u : Url, parse u.text = .ok u ∧ partsAt? u.text = some (u.authority.toList, u.path.toList) ∧
      u.text = scheme ++ u.authority ++ u.path ∧ u.authority ≠ "" ∧ '/' ∉ u.authority.toList) ∧
    ∀ first second u w, parse first = .ok u → parse second = .ok w →
      ∀ authority path authority' path', Spelled (trim first.toList) authority path →
        Spelled (trim second.toList) authority' path' →
        (u = w ↔ lower authority = lower authority' ∧ path = path') := by
  refine ⟨fun _ _ => parse_iff_reads, parseAt?_eq, fun u => ?_, ?_⟩
  · have nonempty : u.authority ≠ "" := fun none => u.normal.nonempty (by rw [none]; rfl)
    exact ⟨parse_text u, partsAt?_text u, rfl, nonempty, u.normal.no_slash⟩
  · intro first second u w parsed parsed' authority path authority' path' spelled spelled'
    obtain ⟨lowered, kept⟩ := parts_of_parse parsed spelled
    obtain ⟨lowered', kept'⟩ := parts_of_parse parsed' spelled'
    rw [← lowered, ← lowered', ← kept, ← kept', String.toList_inj, String.toList_inj]
    exact ⟨fun same => same ▸ ⟨rfl, rfl⟩, fun same => eq_of_parts same.1 same.2⟩

/-- Letters of two bytes stand on both sides of the slash at which the text is cut. Only case that
counts for nothing, a blank and slashes at the end tell the two texts apart. -/
theorem umlauts_read_alike : ∃ u, parse " ACC://Bücher.ACME/Öl//" = .ok u ∧
    parse "acc://bücher.acme/Öl" = .ok u ∧
    Spelled (trim " ACC://Bücher.ACME/Öl//".toList) "Bücher.ACME".toList "/Öl".toList ∧
    Spelled (trim "acc://bücher.acme/Öl".toList) "bücher.acme".toList "/Öl".toList ∧
    parseAt? " ACC://Bücher.ACME/Öl//" = some (.ok u.text) ∧ parse u.text = .ok u := by
  have first : Spelled (trim " ACC://Bücher.ACME/Öl//".toList) "Bücher.ACME".toList "/Öl".toList :=
    ⟨⟨⟨"ACC://".toList, "//".toList, by decide, by decide,
      List.forall_mem_cons.2 ⟨rfl, List.forall_mem_cons.2 ⟨rfl, nofun⟩⟩⟩, by decide⟩, by decide,
      by decide, by decide⟩
  have second : Spelled (trim "acc://bücher.acme/Öl".toList) "bücher.acme".toList "/Öl".toList :=
    ⟨⟨⟨"acc://".toList, [], by decide, by decide, nofun⟩, by decide⟩, by decide, by decide,
      by decide⟩
  obtain ⟨-, offsets, texts, alike⟩ := parse_follows_grammar
  obtain ⟨u, parsed⟩ : ∃ u, parse " ACC://Bücher.ACME/Öl//" = .ok u := ⟨_, rfl⟩
  obtain ⟨w, parsed'⟩ : ∃ w, parse "acc://bücher.acme/Öl" = .ok w := ⟨_, rfl⟩
  obtain rfl : u = w :=
    (alike _ _ u w parsed parsed' _ _ _ _ first second).2 ⟨by decide, rfl⟩
  refine ⟨u, parsed, parsed', first, second, ?_, (texts u).1⟩
  rw [offsets, parsed]
  rfl

end Url

end LightClient
