import Mathlib.Algebra.Group.Nat.Defs
import Finm327.Library.XorShifts
import Finm327.Hw5.FiniteMap

/-!
# Which keys share a hash

The mixing of a packed word can be undone, so two keys of at most eight bytes share their
hash when they share their word with the length in its top byte. Every step of FNV-1a can be
undone too, so a longer key has another hash when one of its bytes is another.
-/

namespace Finm327.Hw5

open Finm327.Library.XorShifts
open Finm327.Library.Runs

/-! ## The steps of the mixing -/

theorem xor_shift_injective : Function.Injective fun w : UInt64 => w ^^^ (w >>> 33) := by
  intro w v same
  have folded := congrArg UInt64.toBitVec same
  apply UInt64.toBitVec_inj.mp
  exact fold_injective (shift_right_drains (by decide : 0 < 33)) folded

theorem mul_injective {factor inverse : UInt64} (undone : factor * inverse = 1) :
    Function.Injective fun w : UInt64 => w * factor := by
  intro w v same
  calc w = w * factor * inverse := by rw [UInt64.mul_assoc, undone, UInt64.mul_one]
    _ = v * factor * inverse := congrArg (· * inverse) same
    _ = v := by rw [UInt64.mul_assoc, undone, UInt64.mul_one]

def mix (w : UInt64) : UInt64 :=
  let w := w ^^^ (w >>> 33)
  let w := w * 0xff51afd7ed558ccd
  let w := w ^^^ (w >>> 33)
  let w := w * 0xc4ceb9fe1a85ec53
  w ^^^ (w >>> 33)

theorem mix_injective : Function.Injective mix := by
  have first : (0xff51afd7ed558ccd : UInt64) * 0x4f74430c22a54005 = 1 := by decide
  have second : (0xc4ceb9fe1a85ec53 : UInt64) * 0x9cb4b2f8129337db = 1 := by decide
  intro w v same
  apply xor_shift_injective
  apply mul_injective first
  apply xor_shift_injective
  apply mul_injective second
  exact xor_shift_injective same

/-! ## The word of a short key -/

def tagged (s : Key) : UInt64 := packed s ^^^ (UInt64.ofNat s.length <<< 56)

theorem symbol_hash_short {s : Key} (short : s.length ≤ 8) : symbolHash s = mix (tagged s) :=
  if_pos short

theorem packed_cons (c : UInt8) (s : Key) : packed (c :: s) = packed s <<< 8 ||| c.toUInt64 := by
  simp [packed]

theorem shift_byte (w : UInt64) (j : Nat) :
    (w <<< 8).toBitVec.getLsbD j =
      (decide (j < 64) && !decide (j < 8) && w.toBitVec.getLsbD (j - 8)) :=
  BitVec.getLsbD_shiftLeft ..

/-- The bytes of a key lie in the word one after the other, the first one lowest. -/
theorem packed_bit (s : Key) {j : Nat} (inside : j < 64) :
    (packed s).toBitVec.getLsbD j = (s.getD (j / 8) 0).toBitVec.getLsbD (j % 8) := by
  induction s generalizing j with
  | nil => simp [packed]
  | cons c s ih =>
      rw [packed_cons, UInt64.toBitVec_or, BitVec.getLsbD_or, shift_byte,
        UInt8.toBitVec_toUInt64, BitVec.getLsbD_setWidth]
      by_cases low : j < 8
      · simp [low, inside, Nat.div_eq_of_lt low, Nat.mod_eq_of_lt low]
      · have above : c.toBitVec.getLsbD j = false := BitVec.getLsbD_of_ge _ _ (by omega)
        have next : j / 8 = (j - 8) / 8 + 1 := by omega
        have same : j % 8 = (j - 8) % 8 := by omega
        have before := ih (show j - 8 < 64 by omega)
        rw [next, same, List.getD_cons_succ, ← before]
        simp [low, inside, above]

/-- Byte `i` of the word: the length goes into the last one. -/
def tagByte (s : Key) (i : Nat) : UInt8 :=
  if i = 7 then s.getD 7 0 ^^^ UInt8.ofNat s.length else s.getD i 0

theorem length_bit {n : Nat} (short : n ≤ 8) {j : Nat} (inside : j < 64) :
    (UInt64.ofNat n <<< 56).toBitVec.getLsbD j =
      (!decide (j < 56) && (UInt8.ofNat n).toBitVec.getLsbD (j - 56)) := by
  have shifted : (UInt64.ofNat n <<< 56).toBitVec.getLsbD j =
      (decide (j < 64) && !decide (j < 56) && (UInt64.ofNat n).toBitVec.getLsbD (j - 56)) :=
    BitVec.getLsbD_shiftLeft ..
  have word : (UInt64.ofNat n).toBitVec = (UInt8.ofNat n).toBitVec.setWidth 64 := by
    apply BitVec.eq_of_toNat_eq
    simp
    omega
  have within : j - 56 < 64 := by omega
  rw [shifted, word, BitVec.getLsbD_setWidth, decide_eq_true inside, decide_eq_true within,
    Bool.true_and, Bool.true_and]

theorem tagged_bit {s : Key} (short : s.length ≤ 8) {j : Nat} (inside : j < 64) :
    (tagged s).toBitVec.getLsbD j = (tagByte s (j / 8)).toBitVec.getLsbD (j % 8) := by
  rw [tagged, UInt64.toBitVec_xor, BitVec.getLsbD_xor, packed_bit s inside,
    length_bit short inside, tagByte]
  by_cases last : j / 8 = 7
  · have top : ¬ j < 56 := by omega
    have place : j - 56 = j % 8 := by omega
    rw [if_pos last, last, UInt8.toBitVec_xor, BitVec.getLsbD_xor, place]
    simp [top]
  · have below : j < 56 := by omega
    rw [if_neg last]
    simp [below]

theorem tagged_eq_iff {a b : Key} (shortA : a.length ≤ 8) (shortB : b.length ≤ 8) :
    tagged a = tagged b ↔ ∀ i < 8, tagByte a i = tagByte b i := by
  constructor
  · intro same i inside
    apply UInt8.toBitVec_inj.mp
    apply BitVec.eq_of_getLsbD_eq
    intro j small
    have quotient : (8 * i + j) / 8 = i := by omega
    have remainder : (8 * i + j) % 8 = j := by omega
    have bitA := tagged_bit shortA (show 8 * i + j < 64 by omega)
    have bitB := tagged_bit shortB (show 8 * i + j < 64 by omega)
    rw [quotient, remainder] at bitA bitB
    rw [← bitA, ← bitB, same]
  · intro same
    apply UInt64.toBitVec_inj.mp
    apply BitVec.eq_of_getLsbD_eq
    intro j small
    rw [tagged_bit shortA small, tagged_bit shortB small, same (j / 8) (by omega)]

/-! ## Short keys that share a hash -/

theorem eq_of_bytes {a b : Key} (length : a.length = b.length)
    (bytes : ∀ i < a.length, a.getD i 0 = b.getD i 0) : a = b := by
  apply List.ext_getElem length
  intro i insideA insideB
  rw [← List.getD_eq_getElem a 0 insideA, ← List.getD_eq_getElem b 0 insideB]
  exact bytes i insideA

/-- The second key is the first one, filled up with zeros, and eight plus its length as the last
byte. -/
def Clash (a b : Key) : Prop :=
  a.length ≤ 7 ∧ b = a ++ List.replicate (7 - a.length) 0 ++ [8 + UInt8.ofNat a.length]

instance (a b : Key) : Decidable (Clash a b) := inferInstanceAs (Decidable (_ ∧ _))

theorem padded_byte (a : Key) (n i : Nat) : (a ++ List.replicate n 0).getD i 0 = a.getD i 0 := by
  by_cases inside : i < a.length
  · rw [List.getD_append _ _ _ _ inside]
  · have outside : a.length ≤ i := by omega
    rw [List.getD_append_right _ _ _ _ outside, List.getD_eq_default _ _ outside]
    by_cases filled : i - a.length < n
    · rw [List.getD_replicate _ filled]
    · rw [List.getD_eq_default _ _ (by rw [List.length_replicate]; omega)]

theorem clash_iff {a b : Key} :
    Clash a b ↔ a.length ≤ 7 ∧ b.length = 8 ∧ (∀ i < 7, b.getD i 0 = a.getD i 0) ∧
      b.getD 7 0 = 8 + UInt8.ofNat a.length := by
  have filled (short : a.length ≤ 7) : (a ++ List.replicate (7 - a.length) 0).length = 7 := by
    simp
    omega
  have below (short : a.length ≤ 7) (last : UInt8) {i : Nat} (inside : i < 7) :
      (a ++ List.replicate (7 - a.length) 0 ++ [last]).getD i 0 = a.getD i 0 := by
    rw [List.getD_append _ _ _ _ (by rw [filled short]; exact inside), padded_byte]
  have top (short : a.length ≤ 7) (last : UInt8) :
      (a ++ List.replicate (7 - a.length) 0 ++ [last]).getD 7 0 = last := by
    rw [List.getD_append_right _ _ _ _ (filled short).le, filled short]
    rfl
  constructor
  · intro clash
    have short := clash.1
    rw [clash.2, List.length_append, filled short]
    exact ⟨short, rfl, fun i inside => below short _ inside, top short _⟩
  · intro ⟨short, long, bytes, last⟩
    have length : b.length =
        (a ++ List.replicate (7 - a.length) 0 ++ [8 + UInt8.ofNat a.length]).length := by
      rw [List.length_append, filled short, long]
      rfl
    apply And.intro short
    apply eq_of_bytes length
    intro i inside
    by_cases small : i < 7
    · rw [below short _ small, bytes i small]
    · have here : i = 7 := by omega
      rw [here, top short, last]

theorem tag_byte_low (s : Key) {i : Nat} (low : i < 7) : tagByte s i = s.getD i 0 :=
  if_neg (by omega)

theorem tag_byte_short {s : Key} (short : s.length ≤ 7) : tagByte s 7 = UInt8.ofNat s.length := by
  rw [tagByte, if_pos rfl, List.getD_eq_default _ _ short, UInt8.zero_xor]

theorem tag_byte_full {s : Key} (full : s.length = 8) : tagByte s 7 = s.getD 7 0 ^^^ 8 := by
  rw [tagByte, if_pos rfl, full]
  rfl

theorem xor_eq_iff (x y mask : UInt8) : x = y ^^^ mask ↔ y = x ^^^ mask := by
  constructor
  · intro same
    rw [same, UInt8.xor_assoc, UInt8.xor_self, UInt8.xor_zero]
  · intro same
    rw [same, UInt8.xor_assoc, UInt8.xor_self, UInt8.xor_zero]

/-- A short key and a full one. -/
theorem tags_clash {a b : Key} (short : a.length ≤ 7) (full : b.length = 8) :
    (∀ i < 8, tagByte a i = tagByte b i) ↔ Clash a b := by
  have small : ∀ n < 8, UInt8.ofNat n ^^^ 8 = 8 + UInt8.ofNat n := by decide
  have last : tagByte a 7 = tagByte b 7 ↔ b.getD 7 0 = 8 + UInt8.ofNat a.length := by
    rw [tag_byte_short short, tag_byte_full full, xor_eq_iff, small a.length (by omega)]
  rw [clash_iff, ← last]
  constructor
  · intro same
    refine ⟨short, full, ?_, same 7 (by decide)⟩
    intro i low
    rw [← tag_byte_low a low, ← tag_byte_low b low, same i (by omega)]
  · intro ⟨_, _, bytes, top⟩ i inside
    by_cases low : i < 7
    · rw [tag_byte_low a low, tag_byte_low b low, bytes i low]
    · have here : i = 7 := by omega
      rw [here, top]

theorem tags_injective {a b : Key} (shortA : a.length ≤ 8) (length : a.length = b.length)
    (same : ∀ i < 8, tagByte a i = tagByte b i) : a = b := by
  apply eq_of_bytes length
  intro i inside
  by_cases low : i < 7
  · rw [← tag_byte_low a low, ← tag_byte_low b low, same i (by omega)]
  · have here : i = 7 := by omega
    have full : a.length = 8 := by omega
    have last := same 7 (by decide)
    rw [tag_byte_full full, tag_byte_full (length ▸ full), xor_eq_iff, UInt8.xor_assoc,
      UInt8.xor_self, UInt8.xor_zero] at last
    rw [here, last]

/-- Two keys of at most eight bytes share a hash when they are the same key, or one of them is
the other with its length written behind it. -/
theorem short_hash_eq_iff {a b : Key} (shortA : a.length ≤ 8) (shortB : b.length ≤ 8) :
    symbolHash a = symbolHash b ↔ a = b ∨ Clash a b ∨ Clash b a := by
  have words : symbolHash a = symbolHash b ↔ ∀ i < 8, tagByte a i = tagByte b i := by
    rw [symbol_hash_short shortA, symbol_hash_short shortB, mix_injective.eq_iff,
      tagged_eq_iff shortA shortB]
  have turned : (∀ i < 8, tagByte a i = tagByte b i) ↔ ∀ i < 8, tagByte b i = tagByte a i := by
    simp only [eq_comm]
  rw [words]
  constructor
  · intro same
    by_cases fullA : a.length = 8
    · by_cases fullB : b.length = 8
      · exact .inl (tags_injective shortA (fullA.trans fullB.symm) same)
      · exact .inr (.inr ((tags_clash (by omega) fullA).mp (turned.mp same)))
    · by_cases fullB : b.length = 8
      · exact .inr (.inl ((tags_clash (by omega) fullB).mp same))
      · have last := same 7 (by decide)
        have distinct : ∀ n < 8, ∀ m < 8, UInt8.ofNat n = UInt8.ofNat m → n = m := by decide
        rw [tag_byte_short (by omega), tag_byte_short (by omega)] at last
        exact .inl (tags_injective shortA (distinct _ (by omega) _ (by omega) last) same)
  · intro some
    rcases some with same | clash | clash
    · simp [same]
    · exact (tags_clash clash.1 (clash_iff.mp clash).2.1).mpr clash
    · exact turned.mpr ((tags_clash clash.1 (clash_iff.mp clash).2.1).mpr clash)

/-! ## Long keys -/

def hashByte (h : UInt64) (c : UInt8) : UInt64 := (h ^^^ c.toUInt64) * 1099511628211

theorem xor_byte_left {h v : UInt64} {c : UInt8} (same : h ^^^ c.toUInt64 = v ^^^ c.toUInt64) :
    h = v := by
  calc h = h ^^^ c.toUInt64 ^^^ c.toUInt64 := by
        rw [UInt64.xor_assoc, UInt64.xor_self, UInt64.xor_zero]
    _ = v := by rw [same, UInt64.xor_assoc, UInt64.xor_self, UInt64.xor_zero]

theorem xor_byte_right {h : UInt64} {c d : UInt8} (same : h ^^^ c.toUInt64 = h ^^^ d.toUInt64) :
    c = d := by
  have words : c.toUInt64 = d.toUInt64 := by
    calc c.toUInt64 = h ^^^ (h ^^^ c.toUInt64) := by
          rw [← UInt64.xor_assoc, UInt64.xor_self, UInt64.zero_xor]
      _ = d.toUInt64 := by rw [same, ← UInt64.xor_assoc, UInt64.xor_self, UInt64.zero_xor]
  exact UInt8.toUInt64_inj.mp words

theorem prime_injective : Function.Injective fun w : UInt64 => w * 1099511628211 :=
  mul_injective (by decide : (1099511628211 : UInt64) * 0xce965057aff6957b = 1)

theorem hash_byte_right {h : UInt64} {c d : UInt8} : hashByte h c = hashByte h d ↔ c = d := by
  constructor
  · intro same
    exact xor_byte_right (prime_injective same)
  · intro same
    rw [same]

/-- Whatever follows, two states of the loop stay apart. -/
theorem hash_rest_injective (s : Key) : Function.Injective fun h => s.foldl hashByte h := by
  induction s with
  | nil => exact Function.injective_id
  | cons c s ih =>
      intro h v same
      exact xor_byte_left (prime_injective (ih same))

theorem symbol_hash_long {s : Key} (long : 8 < s.length) :
    symbolHash s = s.foldl hashByte 1469598103934665603 :=
  if_neg (by omega)

theorem long_hash_eq_iff {before after : Key} {c d : UInt8}
    (long : 8 ≤ before.length + after.length) :
    symbolHash (before ++ c :: after) = symbolHash (before ++ d :: after) ↔ c = d := by
  have length (e : UInt8) : 8 < (before ++ e :: after).length := by
    simp
    omega
  have split (e : UInt8) : symbolHash (before ++ e :: after) =
      after.foldl hashByte (hashByte (before.foldl hashByte 1469598103934665603) e) := by
    rw [symbol_hash_long (length e), List.foldl_append, List.foldl_cons]
  rw [split, split, (hash_rest_injective after).eq_iff, hash_byte_right]

/-- Which short keys share a hash, and that a long key with one other byte has another hash. -/
theorem hash_collisions :
    (∀ a b : Key, a.length ≤ 8 → b.length ≤ 8 →
      (symbolHash a = symbolHash b ↔ a = b ∨ Clash a b ∨ Clash b a)) ∧
    (∀ (before after : Key) (c d : UInt8), 8 ≤ before.length + after.length →
      (symbolHash (before ++ c :: after) = symbolHash (before ++ d :: after) ↔ c = d)) := by
  constructor
  · intro a b shortA shortB
    exact short_hash_eq_iff shortA shortB
  · intro before after c d long
    exact long_hash_eq_iff long

/-- `AB` against its own bytes with five zeros and a line feed behind them. -/
theorem hash_collisions_sample :
    symbolHash [65, 66] = symbolHash [65, 66, 0, 0, 0, 0, 0, 10] ∧
      symbolHash ([65, 66, 67, 68] ++ 69 :: [70, 71, 72, 73]) ≠
        symbolHash ([65, 66, 67, 68] ++ 101 :: [70, 71, 72, 73]) := by
  constructor
  · exact (hash_collisions.1 _ _ (by decide) (by decide)).mpr (by decide)
  · intro same
    have equal := (hash_collisions.2 [65, 66, 67, 68] [70, 71, 72, 73] 69 101 (by decide)).mp same
    exact absurd equal (by decide)

/-! ## Tables of tickers -/

/-- At most eight bytes, none of them one of the first control characters. -/
def Ticker (key : Key) : Prop := key.length ≤ 8 ∧ ∀ c ∈ key, 15 < c

instance (key : Key) : Decidable (Ticker key) := inferInstanceAs (Decidable (_ ∧ _))

theorem ticker_clashes_not {a b : Key} (ticker : Ticker b) : ¬ Clash a b := by
  intro clash
  have small : ∀ n < 8, 8 + UInt8.ofNat n ≤ 15 := by decide
  have last : 8 + UInt8.ofNat a.length ∈ b := by
    rw [clash.2]
    simp
  exact absurd (small a.length (by have short := clash.1; omega))
    (UInt8.not_le.mpr (ticker.2 _ last))

theorem ticker_hash_eq_iff {a b : Key} (tickerA : Ticker a) (tickerB : Ticker b) :
    symbolHash a = symbolHash b ↔ a = b := by
  rw [short_hash_eq_iff tickerA.1 tickerB.1]
  simp [ticker_clashes_not tickerA, ticker_clashes_not tickerB]

/-- The caller's keys are tickers. -/
def fewTickers {V State : Type} (config : Config State (Op V) (Answer V)) (op : Op V) : Prop :=
  fewKeys config op ∧ Ticker op.key

instance {V State : Type} (config : Config State (Op V) (Answer V)) (op : Op V) :
    Decidable (fewTickers config op) :=
  inferInstanceAs (Decidable (_ ∧ _))

namespace RobinHoodMap

variable {V : Type}

/-- What a slot in use of a table of tickers holds is told by its hash. -/
theorem slot_named {config : Config (RobinHoodMap V) (Op V) (Answer V)}
    (shows : Shows symbolHash config.state config.ops)
    (tickers : ∀ key ∈ config.ops.map Op.key, Ticker key) {i : Nat}
    (inside : i < config.state.capacity) (used : (config.state.table i).dib ≠ 0) :
    Ticker (config.state.table i).view ∧
      (config.state.table i).hash = symbolHash (config.state.table i).view := by
  constructor
  · apply tickers
    apply named_of_stored
    have holds : config.state.Holds _ _ := ⟨i, inside, used, rfl, rfl⟩
    rw [(shows.content _ _).mpr holds]
    rfl
  · exact (shows.sound.intact i inside used).hash

variable [Inhabited V]

theorem reachable_tickers {hasher : Key → UInt64} {m : RobinHoodMap V}
    {config : Config (RobinHoodMap V) (Op V) (Answer V)}
    (reached : Reachable (step hasher) fewTickers m config) :
    ∀ key ∈ config.ops.map Op.key, Ticker key := by
  apply reachable_invariant (fun config => ∀ key ∈ config.ops.map Op.key, Ticker key) ?_ ?_ reached
  · simp
  · intro config op next answer tickers allowed _ key named
    rw [Config.push_ops, List.map_append, List.mem_append, List.map_singleton,
      List.mem_singleton] at named
    rcases named with before | last
    · exact tickers key before
    · rw [last]
      exact allowed.2

/-- In a table of tickers the hashes alone tell the keys apart: a lookup that compared nothing
else would find the same. -/
theorem hashes_name_tickers {cap : Nat} {m : RobinHoodMap V} (made : make cap = some m)
    {config : Config (RobinHoodMap V) (Op V) (Answer V)}
    (reached : Reachable (step symbolHash) fewTickers m config) :
    (∀ i j, i < config.state.capacity → j < config.state.capacity →
      (config.state.table i).dib ≠ 0 → (config.state.table j).dib ≠ 0 →
      (config.state.table i).hash = (config.state.table j).hash → i = j) ∧
    ∀ key, Ticker key → ∀ value, stored config.ops key = some value ↔
      ∃ i, i < config.state.capacity ∧ (config.state.table i).dib ≠ 0 ∧
        (config.state.table i).hash = symbolHash key ∧ (config.state.table i).value = value := by
  have shows := reachable_shows made (reachable_mono (fun _ _ allowed => allowed.1) reached)
  have tickers := reachable_tickers reached
  constructor
  · intro i j insideI insideJ usedI usedJ same
    obtain ⟨tickerI, hashI⟩ := slot_named shows tickers insideI usedI
    obtain ⟨tickerJ, hashJ⟩ := slot_named shows tickers insideJ usedJ
    rw [hashI, hashJ, ticker_hash_eq_iff tickerI tickerJ] at same
    exact shows.sound.distinct i j insideI insideJ usedI usedJ same
  · intro key ticker value
    have named {i : Nat} (inside : i < config.state.capacity)
        (used : (config.state.table i).dib ≠ 0) :
        (config.state.table i).hash = symbolHash key ↔ (config.state.table i).view = key := by
      obtain ⟨tickerI, hash⟩ := slot_named shows tickers inside used
      rw [hash, ticker_hash_eq_iff tickerI ticker]
    rw [shows.content]
    constructor
    · intro ⟨i, inside, used, view, found⟩
      exact ⟨i, inside, used, (named inside used).mpr view, found⟩
    · intro ⟨i, inside, used, hash, found⟩
      exact ⟨i, inside, used, (named inside used).mp hash, found⟩

theorem hashes_name_tickers_sample :
    ∃ config : Config (RobinHoodMap Nat) (Op Nat) (Answer Nat),
      execute (step symbolHash) fewTickers (.start (allocate 8))
          [.insert [65] 1, .insert [66, 67] 2, .insert [68] 3, .erase [65]] = some config ∧
        ∃ i, i < config.state.capacity ∧ (config.state.table i).dib ≠ 0 ∧
          (config.state.table i).hash = symbolHash [66, 67] ∧ (config.state.table i).value = 2 := by
  have completes : (execute (step symbolHash) fewTickers
      (.start (allocate 8 : RobinHoodMap Nat))
      [.insert [65] 1, .insert [66, 67] 2, .insert [68] 3, .erase [65]]).any
        (fun config => decide (stored config.ops [66, 67] = some 2)) = true := by
    decide +kernel
  obtain ⟨config, ran, found⟩ := (Option.any_eq_true _ _).mp completes
  have made : make 3 = some (allocate 8 : RobinHoodMap Nat) := rfl
  have ticker : Ticker [66, 67] := by decide +kernel
  have told := hashes_name_tickers made (reachable_of_execute ran)
  exact ⟨config, ran, (told.2 [66, 67] ticker 2).mp (of_decide_eq_true found)⟩

end RobinHoodMap

end Finm327.Hw5
