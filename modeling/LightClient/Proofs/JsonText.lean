import LightClient.Json.Text
import LightClient.Proofs.JsonTokens

/-!
# Written values are read back

The text of a value in which every number is an integer of 64 bits is read as this value. Its tokens
are scanned one after the other, because what follows a word or a numeral is a comma or a bracket;
and the tokens of a value take a reader from where a value may stand to where it has been delivered.
-/
namespace LightClient.Json

/-- Every number in a value is an integer of 64 bits, signed or not, and nothing is unreadable. -/
inductive Plain : Json → Prop where
  | null : Plain .null
  | bool (value : Bool) : Plain (.bool value)
  | integer {value : Int} (word : IsWord value) : Plain (.integer value)
  | string (text : String) : Plain (.string text)
  | array {items : List Json} (all : ∀ item ∈ items, Plain item) : Plain (.array items)
  | object {members : List (String × Json)} (all : ∀ m ∈ members, Plain m.2) :
    Plain (.object members)

/-! ## Scanning -/

namespace Token

/-- The written tokens are scanned as themselves if `rest` follows them. -/
def Scans (tokens : List Token) (rest : List Char) : Prop :=
  ∀ done, scanFrom done .between (tokens.flatMap render ++ rest) =
    scanFrom (tokens.reverse ++ done) .between rest

variable {rest : List Char}

theorem Scans.append {tokens more : List Token} (first : Scans tokens (more.flatMap render ++ rest))
    (second : Scans more rest) : Scans (tokens ++ more) rest := by
  intro done
  rw [List.flatMap_append, List.append_assoc, first, second, List.reverse_append,
    List.append_assoc]

theorem Scans.cons {token : Token} {more : List Token}
    (first : Scans [token] (more.flatMap render ++ rest)) (second : Scans more rest) :
    Scans (token :: more) rest :=
  first.append second

theorem scans_openArray : Scans [openArray] rest := fun _ => rfl

theorem scans_closeArray : Scans [closeArray] rest := fun _ => rfl

theorem scans_openObject : Scans [openObject] rest := fun _ => rfl

theorem scans_closeObject : Scans [closeObject] rest := fun _ => rfl

theorem scans_comma : Scans [comma] rest := fun _ => rfl

theorem scans_colon : Scans [colon] rest := fun _ => rfl

theorem scans_text (text : String) : Scans [.text (some text)] rest := by
  intro done
  rw [List.flatMap_singleton]
  exact scanFrom_renderText text

theorem scans_null (delimited : Delimited rest) : Scans [literal .null] rest := fun _ =>
  scanFrom_literal_word rfl (by decide) rfl delimited

theorem scans_bool (b : Bool) (delimited : Delimited rest) : Scans [literal (.bool b)] rest := by
  cases b
  · exact fun _ => scanFrom_literal_word rfl (by decide) rfl delimited
  · exact fun _ => scanFrom_literal_word rfl (by decide) rfl delimited

theorem scans_integer {n : Int} (word : IsWord n) (delimited : Delimited rest) :
    Scans [literal (.integer n)] rest := by
  intro done
  rw [List.flatMap_singleton]
  exact scanFrom_integer word delimited

end Token

open Token

/-- What follows an item is a comma or the end of its array. -/
theorem delimited_itemTokens (items : List Json) (rest : List Char) :
    Delimited ((itemTokens false items).flatMap Token.render ++ rest) := by
  cases items <;> rintro c ⟨⟩ <;> decide

theorem delimited_memberTokens (members : List (String × Json)) (rest : List Char) :
    Delimited ((memberTokens false members).flatMap Token.render ++ rest) := by
  cases members <;> rintro c ⟨⟩ <;> decide

theorem scans_itemTokens {items : List Json} (first : Bool) (rest : List Char)
    (each : ∀ item ∈ items, ∀ rest, Delimited rest → Scans (tokens item) rest) :
    Scans (itemTokens first items) rest := by
  induction items generalizing first with
  | nil => exact scans_closeArray
  | cons item items ih =>
    have later := ih false fun i hi => each i (List.mem_cons_of_mem _ hi)
    have here := (each item List.mem_cons_self _ (delimited_itemTokens items rest)).append later
    cases first
    · exact scans_comma.cons here
    · exact here

theorem scans_memberTokens {members : List (String × Json)} (first : Bool) (rest : List Char)
    (each : ∀ m ∈ members, ∀ rest, Delimited rest → Scans (tokens m.2) rest) :
    Scans (memberTokens first members) rest := by
  induction members generalizing first with
  | nil => exact scans_closeObject
  | cons member members ih =>
    obtain ⟨name, value⟩ := member
    have later := ih false fun m hm => each m (List.mem_cons_of_mem _ hm)
    have here := (each _ List.mem_cons_self _ (delimited_memberTokens members rest)).append later
    have named := (scans_text name).cons (scans_colon.cons here)
    cases first
    · exact scans_comma.cons named
    · exact named

theorem scans_tokens {value : Json} (plain : Plain value) :
    ∀ rest, Delimited rest → Scans (tokens value) rest := by
  induction plain with
  | null => exact fun _ => scans_null
  | bool b => exact fun _ => scans_bool b
  | integer word => exact fun _ => scans_integer word
  | string text => exact fun _ _ => scans_text text
  | array _ ih => exact fun rest _ => scans_openArray.cons (scans_itemTokens true rest ih)
  | object _ ih => exact fun rest _ => scans_openObject.cons (scans_memberTokens true rest ih)

theorem scan_render {value : Json} (plain : Plain value) :
    Token.scan value.render.toList = some value.tokens := by
  have whole := scans_tokens plain [] (fun _ h => by cases h) []
  rw [List.append_nil, List.append_nil] at whole
  rw [Token.scan, render, String.toList_ofList, whole]
  simp [scanFrom, finish?]

/-! ## Reading -/

namespace Reader

/-- From where a value may stand, the tokens lead to where it has been delivered. -/
def Reads (tokens : List Token) (value : Json) : Prop :=
  ∀ outer first more, run? (.awaitValue outer first) (tokens ++ more) =
    run? (deliver value outer) more

variable (outer : List Frame) (more : List Token)

/-- After an item the others of the array are read up to its end. -/
theorem run?_afterItem {items : List Json} (each : ∀ item ∈ items, Reads (tokens item) item)
    (seen : List Json) : run? (.afterItem seen outer) (itemTokens false items ++ more) =
      run? (deliver (.array (seen.reverse ++ items)) outer) more := by
  induction items generalizing seen with
  | nil => simp [itemTokens, run?, step?, closeArray]
  | cons item items ih =>
    have here := each item List.mem_cons_self (.array seen :: outer) false
    have later := ih (fun i hi => each i (List.mem_cons_of_mem _ hi)) (item :: seen)
    simp only [itemTokens, Bool.false_eq_true, if_false, List.append_assoc, List.cons_append,
      List.nil_append, run?, step?, here, deliver, later, List.reverse_cons]

theorem run?_afterMember {members : List (String × Json)}
    (each : ∀ m ∈ members, Reads (tokens m.2) m.2) (seen : List (String × Json)) :
    run? (.afterMember (some seen) outer) (memberTokens false members ++ more) =
      run? (deliver (.object (seen.reverse ++ members)) outer) more := by
  induction members generalizing seen with
  | nil => simp [memberTokens, run?, step?, closeObject]
  | cons member members ih =>
    obtain ⟨name, value⟩ := member
    have here := each _ List.mem_cons_self (.object (some seen) (some name) :: outer) false
    have later := ih (fun m hm => each m (List.mem_cons_of_mem _ hm)) ((name, value) :: seen)
    simp only [memberTokens, Bool.false_eq_true, if_false, List.append_assoc, List.cons_append,
      List.nil_append, run?, step?, here, deliver, addMember, Option.bind_some, Option.map_some,
      later, List.reverse_cons]

theorem reads_array {items : List Json} (each : ∀ item ∈ items, Reads (tokens item) item) :
    Reads (tokens (.array items)) (.array items) := by
  intro outer first more
  cases items with
  | nil => simp [tokens, itemTokens, run?, step?, closeArray]
  | cons item items =>
    have here := each item List.mem_cons_self (.array [] :: outer) true
    have later := run?_afterItem outer more (fun i hi => each i (List.mem_cons_of_mem _ hi)) [item]
    simp only [tokens, itemTokens, if_true, List.append_assoc, List.cons_append, List.nil_append,
      run?, step?, here, deliver, later, List.reverse_cons, List.reverse_nil]

theorem reads_object {members : List (String × Json)}
    (each : ∀ m ∈ members, Reads (tokens m.2) m.2) :
    Reads (tokens (.object members)) (.object members) := by
  intro outer first more
  cases members with
  | nil => simp [tokens, memberTokens, run?, step?, closeObject]
  | cons member members =>
    obtain ⟨name, value⟩ := member
    have here := each _ List.mem_cons_self (.object (some []) (some name) :: outer) false
    have later := run?_afterMember outer more (fun m hm => each m (List.mem_cons_of_mem _ hm))
      [(name, value)]
    simp only [tokens, memberTokens, if_true, List.append_assoc, List.cons_append, List.nil_append,
      run?, step?, here, deliver, addMember, Option.bind_some, Option.map_some, later,
      List.reverse_cons, List.reverse_nil]

theorem reads_tokens {value : Json} (plain : Plain value) : Reads (tokens value) value := by
  induction plain with
  | null => exact fun _ _ _ => rfl
  | bool b => exact fun _ _ _ => rfl
  | integer _ => exact fun _ _ _ => rfl
  | string text => exact fun _ _ _ => rfl
  | array _ ih => exact reads_array ih
  | object _ ih => exact reads_object ih

end Reader

/-- A written value is read back. -/
theorem parse?_render {value : Json} (plain : Plain value) : parse? value.render = some value := by
  have read := Reader.reads_tokens plain [] false []
  rw [List.append_nil] at read
  rw [parse?, scan_render plain, Option.bind_some, ofTokens?, read]
  rfl

end LightClient.Json
