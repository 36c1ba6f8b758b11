import Mathlib.Data.List.DropRight
import Finm327.Hft.Parsing

/-!
# The messages of the clients of 2026

Transcribes how `hftprojectstudent/hftserver2026/main.cpp` and `tools/blast_server.cpp` read
an answer: the bytes of one `recv` are trimmed, and `sscanf` is tried with two numbers and
then with one. The two numbers or the one are those that the bytes start with.
-/

namespace Finm327.Hft2026

open Finm327.Library.DecimalText
open Finm327.Hft

def rtrim (s : List UInt8) : List UInt8 := s.rdropWhile isSpace

/-- What a reader of `c_str()` sees. -/
def cStr (s : List UInt8) : List UInt8 := s.takeWhile fun c => c ≠ 0

def Fits (value : Int) : Prop := -2147483648 ≤ value ∧ value < 2147483648

instance (value : Int) : Decidable (Fits value) := inferInstanceAs (Decidable (_ ∧ _))

/-- The `int` that `%d` stores. For a number that no `int` can hold it is not defined, and
`overflow` stands for what the library does then. -/
def stored (overflow : Int → Int32) (value : Int) : Int32 :=
  if Fits value then Int32.ofInt value else overflow value

theorem to_int_stored {overflow : Int → Int32} {value : Int} (fits : Fits value) :
    (stored overflow value).toInt = value := by
  rw [stored, if_pos fits]
  exact Int32.toInt_ofInt_of_le fits.1 fits.2

theorem fits_to_int (value : Int32) : Fits value.toInt :=
  ⟨value.le_toInt, value.toInt_lt⟩

theorem stored_to_int (overflow : Int → Int32) (value : Int32) :
    stored overflow value.toInt = value := by
  rw [stored, if_pos (fits_to_int value), Int32.ofInt_toInt]

/-- The number that `%d` finds, and what is left. -/
def scanInt (p : List UInt8) : Option (Int × List UInt8) := readSigned (p.dropWhile isSpace)

/-- `sscanf(cstr, "%d", &a)` with `a` set to 0 before. The result for an empty input, `EOF`,
counts as 0. -/
def scanOne (overflow : Int → Int32) (cstr : List UInt8) : Nat × Int32 :=
  match scanInt cstr with
  | none => (0, 0)
  | some (a, _) => (1, stored overflow a)

/-- `sscanf(cstr, "%d %d", &a, &b)`, likewise. -/
def scanTwo (overflow : Int → Int32) (cstr : List UInt8) : Nat × Int32 × Int32 :=
  match scanInt cstr with
  | none => (0, 0, 0)
  | some (a, p) =>
      match scanInt p with
      | none => (1, stored overflow a, 0)
      | some (b, _) => (2, stored overflow a, stored overflow b)

/-- `parsedCid` and `parsedAnswer`. -/
structure Parsed where
  cid : Int32
  answer : Int32
deriving DecidableEq

/-- What `handleClient` makes of the bytes of a message; an invalid one is dropped. -/
def parseAnswer (overflow : Int → Int32) (bytes : List UInt8) : Option Parsed :=
  let msg := rtrim bytes
  let (nParsed, a, b) := scanTwo overflow (cStr msg)
  if nParsed = 2 then some ⟨a, b⟩
  else
    let (nParsed, a) := scanOne overflow (cStr msg)
    if nParsed = 1 then some ⟨-1, a⟩ else none

/-- The same in `tools/blast_server.cpp`, with one call. -/
def blastParseAnswer (overflow : Int → Int32) (bytes : List UInt8) : Option Parsed :=
  let msg := rtrim bytes
  let (n, cid, ans) := scanTwo overflow (cStr msg)
  if n = 1 then some ⟨-1, cid⟩
  else if n ≠ 2 then none
  else some ⟨cid, ans⟩

/-! ## What a text starts with -/

/-- The text starts with white space, an optional sign and all the digits of a number. -/
def Leads (text : List UInt8) (value : Int) (rest : List UInt8) : Prop :=
  ∃ blanks sign digits, text = blanks ++ (sign ++ (digits ++ rest)) ∧
    (∀ c ∈ blanks, isSpace c = true) ∧ (∀ c ∈ digits, isDigit c = true) ∧ digits ≠ [] ∧
    (∀ c, rest.head? = some c → isDigit c = false) ∧
    (sign = [45] ∧ value = -(digitsValue digits : Int) ∨
      (sign = [43] ∨ sign = []) ∧ value = digitsValue digits)

def StartsWithTwo (text : List UInt8) (a b : Int) : Prop :=
  ∃ middle rest, Leads text a middle ∧ Leads middle b rest

/-- One number only: none follows it. -/
def StartsWithOne (text : List UInt8) (a : Int) : Prop :=
  ∃ rest, Leads text a rest ∧ ∀ b after, ¬ Leads rest b after

theorem read_magnitude_iff {p rest : List UInt8} {n : Nat} :
    readMagnitude p = some (n, rest) ↔ ∃ digits, p = digits ++ rest ∧
      (∀ c ∈ digits, isDigit c = true) ∧ digits ≠ [] ∧
      (∀ c, rest.head? = some c → isDigit c = false) ∧ n = digitsValue digits := by
  unfold readMagnitude
  constructor
  · intro read
    split_ifs at read with none
    obtain ⟨value, left⟩ := Prod.mk.inj (Option.some.inj read)
    refine ⟨p.takeWhile isDigit, ?_, ?_, none, ?_, value.symm⟩
    · rw [← left, List.takeWhile_append_dropWhile]
    · exact fun c member => List.mem_takeWhile_imp member
    · intro c head
      rw [← left] at head
      have stop := List.head?_dropWhile_not isDigit p
      rw [head] at stop
      simpa using stop
  · rintro ⟨digits, rfl, all, some, stop, rfl⟩
    have shape : (digits ++ rest).takeWhile isDigit = digits ∧
        (digits ++ rest).dropWhile isDigit = rest := by
      rw [List.takeWhile_append_of_pos all, List.dropWhile_append_of_pos all]
      cases rest with
      | nil => simp
      | cons c rest =>
          have other : ¬ isDigit c = true := by
            rw [stop c rfl]
            exact Bool.false_ne_true
          rw [List.takeWhile_cons_of_neg other, List.dropWhile_cons_of_neg other]
          exact ⟨List.append_nil _, rfl⟩
    rw [shape.1, shape.2, if_neg some]

theorem digit_is_no_sign {c : UInt8} (digit : isDigit c = true) :
    c ≠ 45 ∧ c ≠ 43 ∧ isSpace c = false := by
  unfold isDigit at digit
  rw [Bool.and_eq_true, decide_eq_true_iff, decide_eq_true_iff, UInt8.le_iff_toNat_le,
    UInt8.le_iff_toNat_le] at digit
  have low : 48 ≤ c.toNat := digit.1
  have high : c.toNat ≤ 57 := digit.2
  refine ⟨?_, ?_, ?_⟩
  · rintro rfl
    exact absurd low (by decide)
  · rintro rfl
    exact absurd low (by decide)
  · unfold isSpace
    rw [Bool.or_eq_false_iff, Bool.and_eq_false_iff, decide_eq_false_iff_not,
      decide_eq_false_iff_not, decide_eq_false_iff_not]
    constructor
    · rintro rfl
      exact absurd low (by decide)
    · right
      intro below
      have bound : c.toNat ≤ 13 := UInt8.le_iff_toNat_le.mp below
      omega

theorem read_signed_iff {p rest : List UInt8} {value : Int} :
    readSigned p = some (value, rest) ↔ ∃ sign digits, p = sign ++ (digits ++ rest) ∧
      (∀ c ∈ digits, isDigit c = true) ∧ digits ≠ [] ∧
      (∀ c, rest.head? = some c → isDigit c = false) ∧
      (sign = [45] ∧ value = -(digitsValue digits : Int) ∨
        (sign = [43] ∨ sign = []) ∧ value = digitsValue digits) := by
  constructor
  · intro read
    cases p with
    | nil => cases read
    | cons c p =>
        rw [readSigned] at read
        split_ifs at read with minus plus
        · obtain ⟨⟨n, left⟩, magnitude, same⟩ := Option.map_eq_some_iff.mp read
          obtain ⟨digits, rfl, all, some, stop, rfl⟩ := read_magnitude_iff.mp magnitude
          cases same
          exact ⟨[45], digits, by rw [minus]; rfl, all, some, stop, .inl ⟨rfl, rfl⟩⟩
        · obtain ⟨⟨n, left⟩, magnitude, same⟩ := Option.map_eq_some_iff.mp read
          obtain ⟨digits, rfl, all, some, stop, rfl⟩ := read_magnitude_iff.mp magnitude
          cases same
          exact ⟨[43], digits, by rw [plus]; rfl, all, some, stop, .inr ⟨.inl rfl, rfl⟩⟩
        · obtain ⟨⟨n, left⟩, magnitude, same⟩ := Option.map_eq_some_iff.mp read
          obtain ⟨digits, shape, all, some, stop, rfl⟩ := read_magnitude_iff.mp magnitude
          cases same
          exact ⟨[], digits, shape, all, some, stop, .inr ⟨.inr rfl, rfl⟩⟩
  · rintro ⟨sign, digits, rfl, all, some, stop, signed⟩
    have magnitude := read_magnitude_iff.mpr ⟨digits, rfl, all, some, stop, rfl⟩
    rcases signed with ⟨rfl, rfl⟩ | ⟨rfl | rfl, rfl⟩
    · rw [List.singleton_append, readSigned, if_pos rfl, magnitude]
      rfl
    · rw [List.singleton_append, readSigned, if_neg (by decide), if_pos rfl, magnitude]
      rfl
    · obtain ⟨c, others, shape⟩ := List.exists_cons_of_ne_nil some
      obtain ⟨minus, plus, _⟩ := digit_is_no_sign (all c (shape ▸ List.mem_cons_self))
      rw [List.nil_append, shape, List.cons_append, readSigned, if_neg minus, if_neg plus,
        ← List.cons_append, ← shape, magnitude]
      rfl

theorem scan_int_iff {text rest : List UInt8} {value : Int} :
    scanInt text = some (value, rest) ↔ Leads text value rest := by
  unfold scanInt Leads
  rw [read_signed_iff]
  constructor
  · rintro ⟨sign, digits, shape, others⟩
    refine ⟨text.takeWhile isSpace, sign, digits, ?_, ?_, others⟩
    · rw [← shape, List.takeWhile_append_dropWhile]
    · exact fun c member => List.mem_takeWhile_imp member
  · rintro ⟨blanks, sign, digits, rfl, skipped, all, some, stop, signed⟩
    refine ⟨sign, digits, ?_, all, some, stop, signed⟩
    have first : ∀ c, (sign ++ (digits ++ rest)).head? = .some c → isSpace c = false := by
      rcases signed with ⟨rfl, _⟩ | ⟨rfl | rfl, _⟩
      · rintro c ⟨⟩
        decide
      · rintro c ⟨⟩
        decide
      · intro c head
        obtain ⟨d, others, shape⟩ := List.exists_cons_of_ne_nil some
        rw [shape] at head
        rw [← Option.some.inj head]
        exact (digit_is_no_sign (all d (shape ▸ List.mem_cons_self))).2.2
    rw [List.dropWhile_append_of_pos skipped]
    cases whole : sign ++ (digits ++ rest) with
    | nil => rfl
    | cons c others =>
        rw [whole] at first
        rw [List.dropWhile_cons_of_neg]
        rw [first c rfl]
        exact Bool.false_ne_true

theorem format_int_without {c : UInt8} (other : isDigit c = false) (sign : c ≠ 45) (value : Int) :
    c ∉ formatInt value := by
  have digits : ∀ n, c ∉ decimal n := by
    intro n member
    have digit := decimal_is_digit n c member
    rw [other] at digit
    cases digit
  cases value with
  | ofNat n => exact digits n
  | negSucc n =>
      intro member
      cases List.mem_cons.mp member with
      | inl first => exact sign first
      | inr rest => exact digits (n + 1) rest

theorem leads_format_int {blanks rest : List UInt8} (skipped : ∀ c ∈ blanks, isSpace c = true)
    (value : Int) (stop : ∀ c, rest.head? = some c → isDigit c = false) :
    Leads (blanks ++ (formatInt value ++ rest)) value rest := by
  cases value with
  | ofNat n =>
      refine ⟨blanks, [], decimal n, rfl, skipped, decimal_is_digit n, decimal_ne_nil n, stop,
        .inr ⟨.inr rfl, ?_⟩⟩
      rw [digits_value_decimal]
      rfl
  | negSucc n =>
      refine ⟨blanks, [45], decimal (n + 1), rfl, skipped, decimal_is_digit (n + 1),
        decimal_ne_nil (n + 1), stop, .inl ⟨rfl, ?_⟩⟩
      rw [digits_value_decimal]
      rfl

/-- The stream operator reads the text of an `int` back. -/
theorem read_int_format {blanks rest : List UInt8} (skipped : ∀ c ∈ blanks, isSpace c = true)
    (value : Int32) (stop : ∀ c, rest.head? = some c → isDigit c = false) :
    readInt (blanks ++ (formatInt value.toInt ++ rest)) = some (value.toInt, rest) := by
  have scanned := scan_int_iff.mpr (leads_format_int skipped value.toInt stop)
  unfold scanInt at scanned
  have lower := value.le_toInt
  have upper := value.toInt_lt
  rw [readInt, scanned]
  exact if_pos ⟨by omega, by omega⟩

/-- The numbers a text starts with: the first, and the one after it. -/
def leading (text : List UInt8) : Option (Int × Option Int) :=
  (scanInt text).map fun (a, p) => (a, (scanInt p).map Prod.fst)

theorem starts_with_two_iff {text : List UInt8} {a b : Int} :
    leading text = some (a, some b) ↔ StartsWithTwo text a b := by
  unfold leading StartsWithTwo
  simp only [← scan_int_iff]
  constructor
  · intro found
    obtain ⟨⟨value, middle⟩, first, same⟩ := Option.map_eq_some_iff.mp found
    obtain ⟨rfl, follows⟩ := Prod.mk.inj same
    obtain ⟨⟨next, rest⟩, second, rfl⟩ := Option.map_eq_some_iff.mp follows
    exact ⟨middle, rest, first, second⟩
  · rintro ⟨middle, rest, first, second⟩
    rw [first, Option.map_some]
    dsimp only
    rw [second, Option.map_some]

theorem starts_with_one_iff {text : List UInt8} {a : Int} :
    leading text = some (a, none) ↔ StartsWithOne text a := by
  unfold leading StartsWithOne
  simp only [← scan_int_iff]
  constructor
  · intro found
    obtain ⟨⟨value, rest⟩, first, same⟩ := Option.map_eq_some_iff.mp found
    obtain ⟨rfl, none⟩ := Prod.mk.inj same
    refine ⟨rest, first, ?_⟩
    intro b after second
    rw [second] at none
    cases none
  · rintro ⟨rest, first, none⟩
    have nothing : scanInt rest = .none :=
      Option.eq_none_iff_forall_ne_some.mpr fun found => none found.1 found.2
    rw [first, Option.map_some, nothing]
    rfl

/-! ## What trimming takes away -/

/-- After white space the text ends, or goes on with a zero byte. -/
def Inert (tail : List UInt8) : Prop := ∀ c, (tail.dropWhile isSpace).head? = some c → c = 0

theorem Inert.no_digit {tail : List UInt8} (inert : Inert tail) (c : UInt8)
    (head : tail.head? = some c) : isDigit c = false := by
  cases tail with
  | nil => cases head
  | cons d tail =>
      cases head
      cases digit : isDigit c with
      | false => rfl
      | true =>
          have blank := (digit_is_no_sign digit).2.2
          have zero := inert c (by
            rw [List.dropWhile_cons_of_neg (by rw [blank]; exact Bool.false_ne_true)]
            rfl)
          rw [zero] at digit
          exact absurd digit (by decide)

theorem Inert.scan_none {tail : List UInt8} (inert : Inert tail) : scanInt tail = none := by
  unfold scanInt
  cases rest : tail.dropWhile isSpace with
  | nil => rfl
  | cons c others =>
      have zero : c = 0 := inert c (by rw [rest]; rfl)
      rw [zero, readSigned, if_neg (by decide), if_neg (by decide)]
      rfl

/-- The digits at the front do not change with what comes behind them. -/
theorem read_magnitude_append (p : List UInt8) {tail : List UInt8}
    (stop : ∀ c, tail.head? = some c → isDigit c = false) :
    readMagnitude (p ++ tail) = (readMagnitude p).map fun (n, rest) => (n, rest ++ tail) := by
  cases read : readMagnitude p with
  | none =>
      cases readBoth : readMagnitude (p ++ tail) with
      | none => rfl
      | some found =>
          obtain ⟨digits, shape, all, some, _, _⟩ := read_magnitude_iff.mp readBoth
          obtain ⟨d, others, split⟩ := List.exists_cons_of_ne_nil some
          have digit := all d (split ▸ List.mem_cons_self)
          rw [split, List.cons_append] at shape
          cases p with
          | nil =>
              rw [List.nil_append] at shape
              have contrary := stop d (by rw [shape]; rfl)
              rw [digit] at contrary
              cases contrary
          | cons c p =>
              have same : c = d := (List.cons.inj shape).1
              unfold readMagnitude at read
              rw [List.takeWhile_cons_of_pos (same ▸ digit), if_neg (List.cons_ne_nil _ _)] at read
              cases read
  | some found =>
      obtain ⟨n, rest⟩ := found
      obtain ⟨digits, rfl, all, some, ends, value⟩ := read_magnitude_iff.mp read
      apply read_magnitude_iff.mpr
      refine ⟨digits, List.append_assoc _ _ _, all, some, ?_, value⟩
      intro c head
      cases rest with
      | nil => exact stop c head
      | cons d rest => exact ends c head

theorem scan_int_append (text : List UInt8) {tail : List UInt8} (inert : Inert tail) :
    scanInt (text ++ tail) = (scanInt text).map fun (a, rest) => (a, rest ++ tail) := by
  have stop := inert.no_digit
  cases front : text.dropWhile isSpace with
  | nil =>
      have none := inert.scan_none
      unfold scanInt at none ⊢
      rw [List.dropWhile_append, front, List.isEmpty_nil, if_pos rfl, none]
      rfl
  | cons c rest =>
      unfold scanInt
      rw [List.dropWhile_append, front, List.isEmpty_cons, if_neg Bool.false_ne_true,
        List.cons_append, readSigned, readSigned, ← List.cons_append, read_magnitude_append _ stop,
        read_magnitude_append _ stop]
      split_ifs
      · cases readMagnitude rest <;> rfl
      · cases readMagnitude rest <;> rfl
      · cases readMagnitude (c :: rest) <;> rfl

theorem leading_append (text : List UInt8) {tail : List UInt8} (inert : Inert tail) :
    leading (text ++ tail) = leading text := by
  unfold leading
  rw [scan_int_append text inert]
  cases first : scanInt text with
  | none => rfl
  | some found =>
      rw [Option.map_some, Option.map_some, Option.map_some]
      dsimp only
      rw [scan_int_append _ inert]
      cases scanInt found.2 <;> rfl

theorem rtrim_blanks (s : List UInt8) :
    ∃ blanks, s = rtrim s ++ blanks ∧ ∀ c ∈ blanks, isSpace c = true := by
  induction s using List.reverseRecOn with
  | nil => exact ⟨[], rfl, fun c member => absurd member List.not_mem_nil⟩
  | append_singleton s c ih =>
      unfold rtrim at ih ⊢
      rw [List.rdropWhile_concat]
      split_ifs with blank
      · obtain ⟨blanks, split, all⟩ := ih
        refine ⟨blanks ++ [c], ?_, ?_⟩
        · rw [← List.append_assoc, ← split]
        · intro d member
          rcases List.mem_append.mp member with before | last
          · exact all d before
          · rw [List.mem_singleton.mp last]
            exact blank
      · exact ⟨[], (List.append_nil _).symm, fun c member => absurd member List.not_mem_nil⟩

/-- Neither trimming nor the end of the C string hides a number. -/
theorem leading_trimmed (bytes : List UInt8) : leading (cStr (rtrim bytes)) = leading bytes := by
  obtain ⟨blanks, split, all⟩ := rtrim_blanks bytes
  have whole : cStr (rtrim bytes) ++ ((rtrim bytes).dropWhile (fun c => c ≠ 0) ++ blanks) =
      bytes := by
    unfold cStr
    rw [← List.append_assoc, List.takeWhile_append_dropWhile, ← split]
  have inert : Inert ((rtrim bytes).dropWhile (fun c => c ≠ 0) ++ blanks) := by
    intro c head
    cases rest : (rtrim bytes).dropWhile (fun c => c ≠ 0) with
    | nil =>
        rw [rest, List.nil_append, List.dropWhile_eq_nil_iff.mpr all] at head
        cases head
    | cons d others =>
        have zero : d = 0 := by
          have stop := List.head?_dropWhile_not (fun c : UInt8 => decide (c ≠ 0)) (rtrim bytes)
          rw [rest] at stop
          simpa using stop
        rw [rest, zero, List.cons_append, List.dropWhile_cons_of_neg (by decide)] at head
        exact (Option.some.inj head).symm
  rw [← leading_append (cStr (rtrim bytes)) inert, whole]

/-- What `handleClient` takes a reading for. -/
def takenFor (overflow : Int → Int32) : Int × Option Int → Parsed
  | (a, some b) => ⟨stored overflow a, stored overflow b⟩
  | (a, none) => ⟨-1, stored overflow a⟩

/-- The two calls on a text, by what it starts with. -/
theorem scans_eq (overflow : Int → Int32) (cstr : List UInt8) :
    leading cstr = none ∧ scanTwo overflow cstr = (0, 0, 0) ∧ scanOne overflow cstr = (0, 0) ∨
      (∃ a, leading cstr = some (a, none) ∧ scanTwo overflow cstr = (1, stored overflow a, 0) ∧
        scanOne overflow cstr = (1, stored overflow a)) ∨
      ∃ a b, leading cstr = some (a, some b) ∧
        scanTwo overflow cstr = (2, stored overflow a, stored overflow b) := by
  unfold leading scanTwo scanOne
  cases first : scanInt cstr with
  | none => exact .inl ⟨rfl, rfl, rfl⟩
  | some found =>
      obtain ⟨a, rest⟩ := found
      rw [Option.map_some]
      dsimp only
      cases second : scanInt rest with
      | none => exact .inr (.inl ⟨a, rfl, rfl, rfl⟩)
      | some next => exact .inr (.inr ⟨a, next.1, rfl, rfl⟩)

theorem parse_answer_eq (overflow : Int → Int32) (bytes : List UInt8) :
    parseAnswer overflow bytes = (leading bytes).map (takenFor overflow) := by
  rw [← leading_trimmed, parseAnswer]
  rcases scans_eq overflow (cStr (rtrim bytes)) with ⟨text, two, one⟩ | ⟨a, text, two, one⟩ |
    ⟨a, b, text, two⟩
  · rw [text, two, one]
    rfl
  · rw [text, two, one]
    rfl
  · rw [text, two]
    rfl

theorem blast_parse_answer_eq (overflow : Int → Int32) (bytes : List UInt8) :
    blastParseAnswer overflow bytes = parseAnswer overflow bytes := by
  rw [blastParseAnswer, parseAnswer]
  rcases scans_eq overflow (cStr (rtrim bytes)) with ⟨_, two, one⟩ | ⟨a, _, two, one⟩ |
    ⟨a, b, _, two⟩
  · rw [two, one]
    rfl
  · rw [two, one]
    rfl
  · rw [two]
    rfl

end Finm327.Hft2026
