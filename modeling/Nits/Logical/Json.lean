import Mathlib.Data.Char
import Mathlib.Data.List.Basic

/-!
# Compact JSON

A value is written without spaces, and its text says where it ends: a number ends before
the first character that is not a digit, every other value with a character of its own. So
no text is the text of two values.
-/

namespace Nits.Logical

/-- Values whose numbers are natural. The fields of an object are in the order they are
written in. -/
inductive Json
  | null
  | bool (value : Bool)
  | number (value : Nat)
  | string (value : String)
  | array (items : List Json)
  | object (fields : List (String × Json))

namespace Json

/-! ## Writing -/

def hexDigit (n : Nat) : Char := "0123456789abcdef".toList.getD n '0'

/-- A character inside a string. -/
def escape (c : Char) : List Char :=
  if c = '"' then ['\\', '"']
  else if c = '\\' then ['\\', '\\']
  else if c.toNat = 0x08 then ['\\', 'b']
  else if c.toNat = 0x09 then ['\\', 't']
  else if c.toNat = 0x0A then ['\\', 'n']
  else if c.toNat = 0x0C then ['\\', 'f']
  else if c.toNat = 0x0D then ['\\', 'r']
  else if c.toNat < 0x20 then
    ['\\', 'u', '0', '0', hexDigit (c.toNat / 16), hexDigit (c.toNat % 16)]
  else [c]

def quote (text : String) : List Char := '"' :: (text.toList.flatMap escape ++ ['"'])

mutual

def print : Json → List Char
  | null => "null".toList
  | bool value => if value then "true".toList else "false".toList
  | number value => Nat.toDigits 10 value
  | string value => quote value
  | array [] => ['[', ']']
  | array (item :: items) => '[' :: (print item ++ printItems items)
  | object [] => ['{', '}']
  | object ((name, value) :: fields) =>
    '{' :: (quote name ++ ':' :: (print value ++ printFields fields))

def printItems : List Json → List Char
  | [] => [']']
  | item :: items => ',' :: (print item ++ printItems items)

def printFields : List (String × Json) → List Char
  | [] => ['}']
  | (name, value) :: fields => ',' :: (quote name ++ ':' :: (print value ++ printFields fields))

end

/-! ## Reading strings -/

/-- What may come behind a value: a number would go on with a digit. -/
def Ends (text : List Char) : Prop := ∀ c ∈ text.head?, c.isDigit = false

@[simp] theorem ends_nil : Ends [] := by simp [Ends]

theorem ends_cons {c : Char} {text : List Char} (other : c.isDigit = false) : Ends (c :: text) := by
  simp [Ends, other]

/-- The characters that are written with a backslash. -/
def Special (c : Char) : Prop := c = '"' ∨ c = '\\' ∨ c.toNat < 0x20

instance (c : Char) : Decidable (Special c) := inferInstanceAs (Decidable (_ ∨ _ ∨ _))

theorem escape_plain {c : Char} (plain : ¬ Special c) : escape c = [c] := by
  have quote : c ≠ '"' := fun same => plain (.inl same)
  have slash : c ≠ '\\' := fun same => plain (.inr (.inl same))
  have high : ¬ c.toNat < 0x20 := fun low => plain (.inr (.inr low))
  rw [escape, if_neg quote, if_neg slash, if_neg (by omega), if_neg (by omega), if_neg (by omega),
    if_neg (by omega), if_neg (by omega), if_neg high]

/-- No escape of a special character begins another. -/
theorem escape_special_code : ∀ left < 0x60, ∀ right < 0x60, Special (Char.ofNat left) →
    Special (Char.ofNat right) → (escape (Char.ofNat left)).isPrefixOf (escape (Char.ofNat right)) →
    left = right := by
  decide +kernel

theorem escape_special {c : Char} (special : Special c) : ∃ rest, escape c = '\\' :: rest := by
  unfold escape
  rcases special with same | same | low
  · exact ⟨_, if_pos same⟩
  · rw [same]
    exact ⟨['\\'], by decide⟩
  · split_ifs <;> exact ⟨_, rfl⟩

/-- An escape does not begin with the quotation mark that ends a string. -/
theorem escape_head (c : Char) : ∃ head rest, escape c = head :: rest ∧ head ≠ '"' := by
  by_cases special : Special c
  · obtain ⟨rest, same⟩ := escape_special special
    exact ⟨_, rest, same, by decide⟩
  · exact ⟨c, [], escape_plain special, fun same => special (.inl same)⟩

theorem escape_reads {a b : Char} {x y : List Char} (same : escape a ++ x = escape b ++ y) :
    a = b ∧ x = y := by
  have plainHead {a b : Char} {x y : List Char} (plain : ¬ Special a) (special : Special b) :
      escape a ++ x ≠ escape b ++ y := by
    obtain ⟨rest, written⟩ := escape_special special
    rw [escape_plain plain, written]
    intro same
    exact plain (.inr (.inl (List.cons.inj same).1))
  by_cases specialA : Special a <;> by_cases specialB : Special b
  · have small {c : Char} (special : Special c) : c.toNat < 0x60 := by
      rcases special with rfl | rfl | low
      · decide
      · decide
      · omega
    have code (c d : Char) (specialC : Special c) (specialD : Special d)
        (isPrefix : escape c <+: escape d) : c = d := by
      have equal := escape_special_code c.toNat (small specialC) d.toNat (small specialD)
      rw [Char.ofNat_toNat, Char.ofNat_toNat] at equal
      have values := equal specialC specialD (List.isPrefixOf_iff_prefix.mpr isPrefix)
      rw [← Char.ofNat_toNat c, values, Char.ofNat_toNat]
    have equal : a = b := by
      rcases List.append_eq_append_iff.mp same with ⟨more, longer, -⟩ | ⟨more, longer, -⟩
      · exact code a b specialA specialB ⟨more, longer.symm⟩
      · exact (code b a specialB specialA ⟨more, longer.symm⟩).symm
    rw [equal] at same
    exact ⟨equal, List.append_cancel_left same⟩
  · exact absurd same.symm (plainHead specialB specialA)
  · exact absurd same (plainHead specialA specialB)
  · rw [escape_plain specialA, escape_plain specialB] at same
    exact List.cons.inj same

theorem escapes_read {left right x y : List Char}
    (same : left.flatMap escape ++ '"' :: x = right.flatMap escape ++ '"' :: y) :
    left = right ∧ x = y := by
  induction left generalizing right with
  | nil =>
    cases right with
    | nil => exact ⟨rfl, (List.cons.inj same).2⟩
    | cons c right =>
      obtain ⟨head, rest, written, other⟩ := escape_head c
      rw [List.flatMap_cons, written] at same
      exact absurd (List.cons.inj same).1.symm other
  | cons c left ih =>
    cases right with
    | nil =>
      obtain ⟨head, rest, written, other⟩ := escape_head c
      rw [List.flatMap_cons, written] at same
      exact absurd (List.cons.inj same).1 other
    | cons d right =>
      rw [List.flatMap_cons, List.flatMap_cons, List.append_assoc, List.append_assoc] at same
      obtain ⟨rfl, rest⟩ := escape_reads same
      obtain ⟨rfl, rfl⟩ := ih rest
      exact ⟨rfl, rfl⟩

theorem quote_reads {left right : String} {x y : List Char}
    (same : quote left ++ x = quote right ++ y) : left = right ∧ x = y := by
  simp only [quote, List.cons_append, List.append_assoc, List.cons.injEq, true_and] at same
  obtain ⟨chars, rest⟩ := escapes_read same
  exact ⟨String.toList_injective chars, rest⟩

/-! ## Reading numbers -/

theorem digits_read {left right x y : List Char} (leftDigits : ∀ c ∈ left, c.isDigit = true)
    (rightDigits : ∀ c ∈ right, c.isDigit = true) (endsX : Ends x) (endsY : Ends y)
    (same : left ++ x = right ++ y) : left = right ∧ x = y := by
  induction left generalizing right with
  | nil =>
    cases right with
    | nil => exact ⟨rfl, same⟩
    | cons c right =>
      have digit := rightDigits c List.mem_cons_self
      have other := endsX c (by rw [show x = c :: (right ++ y) from same]; rfl)
      rw [digit] at other
      cases other
  | cons c left ih =>
    cases right with
    | nil =>
      have digit := leftDigits c List.mem_cons_self
      have other := endsY c (by rw [← show c :: (left ++ x) = y from same]; rfl)
      rw [digit] at other
      cases other
    | cons d right =>
      obtain ⟨rfl, later⟩ := List.cons.inj same
      obtain ⟨rfl, rest⟩ := ih (fun e mem => leftDigits e (by simp [mem]))
        (fun e mem => rightDigits e (by simp [mem])) later
      exact ⟨rfl, rest⟩

theorem number_reads {left right : Nat} {x y : List Char} (endsX : Ends x) (endsY : Ends y)
    (same : Nat.toDigits 10 left ++ x = Nat.toDigits 10 right ++ y) : left = right ∧ x = y := by
  have digits (n : Nat) : ∀ c ∈ Nat.toDigits 10 n, c.isDigit = true := fun c mem =>
    Nat.isDigit_of_mem_toDigits (by decide) (by decide) mem
  obtain ⟨equal, rest⟩ := digits_read (digits left) (digits right) endsX endsY same
  have values := congrArg (fun digits => Nat.ofDigitChars 10 digits 0) equal
  simp only [Nat.ofDigitChars_ten_toDigits] at values
  exact ⟨values, rest⟩

/-! ## Reading values -/

inductive Kind
  | null | bool | number | string | array | object | closing
  deriving DecidableEq

def kind : Json → Kind
  | null => .null
  | bool _ => .bool
  | number _ => .number
  | string _ => .string
  | array _ => .array
  | object _ => .object

/-- The kind of value that begins with a character. -/
def kindOf (c : Char) : Kind :=
  if c = 'n' then .null
  else if c = 't' ∨ c = 'f' then .bool
  else if c = '"' then .string
  else if c = '[' then .array
  else if c = '{' then .object
  else if c.isDigit then .number
  else .closing

theorem kindOf_digit {c : Char} (digit : c.isDigit = true) : kindOf c = .number := by
  have other {d : Char} (notDigit : d.isDigit = false) : c ≠ d := by
    rintro rfl
    rw [digit] at notDigit
    cases notDigit
  rw [kindOf, if_neg (other (by decide)), if_neg (not_or.mpr ⟨other (by decide), other (by decide)⟩),
    if_neg (other (by decide)), if_neg (other (by decide)), if_neg (other (by decide)), if_pos digit]

theorem print_head (value : Json) : ∃ c rest, print value = c :: rest ∧ kindOf c = value.kind := by
  cases value with
  | null => exact ⟨'n', "ull".toList, by decide, by decide⟩
  | bool value =>
    cases value
    · exact ⟨'f', "alse".toList, by decide, by decide⟩
    · exact ⟨'t', "rue".toList, by decide, by decide⟩
  | number value =>
    obtain ⟨c, rest, written⟩ := List.exists_cons_of_ne_nil (@Nat.toDigits_ne_nil value 10)
    refine ⟨c, rest, by rw [print, written], kindOf_digit ?_⟩
    exact Nat.isDigit_of_mem_toDigits (by decide) (by decide)
      (show c ∈ Nat.toDigits 10 value by rw [written]; exact List.mem_cons_self)
  | string value => exact ⟨'"', _, by rw [print, quote], (by decide : kindOf '"' = .string)⟩
  | array items =>
    cases items <;> exact ⟨'[', _, by rw [print], (by decide : kindOf '[' = .array)⟩
  | object fields =>
    have head : kindOf '{' = .object := by decide
    rcases fields with _ | ⟨⟨name, value⟩, fields⟩ <;> exact ⟨'{', _, by rw [print], head⟩

theorem kind_eq {a b : Json} {x y : List Char} (same : print a ++ x = print b ++ y) :
    a.kind = b.kind := by
  obtain ⟨c, rest, written, isKind⟩ := print_head a
  obtain ⟨c', rest', written', isKind'⟩ := print_head b
  rw [written, written'] at same
  rw [← isKind, ← isKind', (List.cons.inj same).1]

/-- A value does not begin like the end of a list. -/
theorem print_ne_closing {value : Json} {c : Char} {x y : List Char} (closing : kindOf c = .closing) :
    print value ++ x ≠ c :: y := by
  obtain ⟨head, rest, written, isKind⟩ := print_head value
  rw [written]
  intro same
  rw [(List.cons.inj same).1, closing] at isKind
  cases value <;> cases isKind

theorem ends_printItems (items : List Json) (x : List Char) : Ends (printItems items ++ x) := by
  cases items <;> exact ends_cons (by decide)

theorem ends_printFields (fields : List (String × Json)) (x : List Char) :
    Ends (printFields fields ++ x) := by
  rcases fields with _ | ⟨⟨name, value⟩, fields⟩ <;> exact ends_cons (by decide)

mutual

/-- The text of a value determines it, whatever comes behind. -/
theorem print_reads : ∀ (a b : Json) {x y : List Char}, Ends x → Ends y →
    print a ++ x = print b ++ y → a = b ∧ x = y
  | .null, b, x, y, _, _, same => by
    cases b with
    | null => exact ⟨rfl, List.append_cancel_left same⟩
    | _ => cases kind_eq same
  | .bool a, b, x, y, _, _, same => by
    cases b with
    | bool b =>
      cases a <;> cases b
      · exact ⟨rfl, List.append_cancel_left same⟩
      · exact absurd (List.cons.inj same).1 (by decide)
      · exact absurd (List.cons.inj same).1 (by decide)
      · exact ⟨rfl, List.append_cancel_left same⟩
    | _ => cases kind_eq same
  | .number a, b, x, y, endsX, endsY, same => by
    cases b with
    | number b =>
      rw [print, print] at same
      obtain ⟨rfl, rest⟩ := number_reads endsX endsY same
      exact ⟨rfl, rest⟩
    | _ => cases kind_eq same
  | .string a, b, x, y, _, _, same => by
    cases b with
    | string b =>
      rw [print, print] at same
      obtain ⟨rfl, rest⟩ := quote_reads same
      exact ⟨rfl, rest⟩
    | _ => cases kind_eq same
  | .array a, b, x, y, _, _, same => by
    cases b with
    | array b =>
      cases a with
      | nil =>
        cases b with
        | nil => exact ⟨rfl, List.append_cancel_left same⟩
        | cons item items =>
          rw [print, print] at same
          simp only [List.cons_append, List.nil_append, List.append_assoc, List.cons.injEq,
            true_and] at same
          exact absurd same.symm (print_ne_closing (by decide))
      | cons item items =>
        cases b with
        | nil =>
          rw [print, print] at same
          simp only [List.cons_append, List.nil_append, List.append_assoc, List.cons.injEq,
            true_and] at same
          exact absurd same (print_ne_closing (by decide))
        | cons item' items' =>
          rw [print, print] at same
          simp only [List.cons_append, List.append_assoc, List.cons.injEq, true_and] at same
          obtain ⟨rfl, later⟩ := print_reads item item' (ends_printItems items x)
            (ends_printItems items' y) same
          obtain ⟨rfl, rest⟩ := printItems_reads items items' later
          exact ⟨rfl, rest⟩
    | _ => cases kind_eq same
  | .object a, b, x, y, _, _, same => by
    cases b with
    | object b =>
      match a, b with
      | [], [] => exact ⟨rfl, List.append_cancel_left same⟩
      | [], (name, value) :: fields =>
        rw [print, print, quote] at same
        exact absurd (List.cons.inj (List.cons.inj same).2).1 (by decide)
      | (name, value) :: fields, [] =>
        rw [print, print, quote] at same
        exact absurd (List.cons.inj (List.cons.inj same).2).1 (by decide)
      | (name, value) :: fields, (name', value') :: fields' =>
        rw [print, print] at same
        simp only [List.cons_append, List.append_assoc, List.cons.injEq, true_and] at same
        obtain ⟨rfl, valued⟩ := quote_reads same
        obtain ⟨rfl, later⟩ := print_reads value value' (ends_printFields fields x)
          (ends_printFields fields' y) (List.cons.inj valued).2
        obtain ⟨rfl, rest⟩ := printFields_reads fields fields' later
        exact ⟨rfl, rest⟩
    | _ => cases kind_eq same

theorem printItems_reads : ∀ (a b : List Json) {x y : List Char},
    printItems a ++ x = printItems b ++ y → a = b ∧ x = y
  | [], [], x, y, same => ⟨rfl, (List.cons.inj same).2⟩
  | [], b :: bs, x, y, same => absurd (List.cons.inj same).1 (by decide)
  | a :: as, [], x, y, same => absurd (List.cons.inj same).1 (by decide)
  | a :: as, b :: bs, x, y, same => by
    simp only [printItems, List.cons_append, List.append_assoc, List.cons.injEq, true_and] at same
    obtain ⟨rfl, later⟩ := print_reads a b (ends_printItems as x) (ends_printItems bs y) same
    obtain ⟨rfl, rest⟩ := printItems_reads as bs later
    exact ⟨rfl, rest⟩

theorem printFields_reads : ∀ (a b : List (String × Json)) {x y : List Char},
    printFields a ++ x = printFields b ++ y → a = b ∧ x = y
  | [], [], x, y, same => ⟨rfl, (List.cons.inj same).2⟩
  | [], b :: bs, x, y, same => absurd (List.cons.inj same).1 (by decide)
  | a :: as, [], x, y, same => absurd (List.cons.inj same).1 (by decide)
  | (name, a) :: as, (name', b) :: bs, x, y, same => by
    simp only [printFields, List.cons_append, List.append_assoc, List.cons.injEq, true_and] at same
    obtain ⟨rfl, valued⟩ := quote_reads same
    obtain ⟨rfl, later⟩ := print_reads a b (ends_printFields as x) (ends_printFields bs y)
      (List.cons.inj valued).2
    obtain ⟨rfl, rest⟩ := printFields_reads as bs later
    exact ⟨rfl, rest⟩

end

/-- No text is the text of two values. -/
theorem print_injective : Function.Injective print := fun a b same =>
  (print_reads a b ends_nil ends_nil (by rw [same])).1

end Json

end Nits.Logical
