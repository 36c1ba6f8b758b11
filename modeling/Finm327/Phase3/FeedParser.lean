import Finm327.Hft2026.Messages

/-!
# The feed

Transcribes `load_feed` of `phase3/feed_parser.h`. A line gives an event or nothing: empty lines,
comments, lines of another type and lines whose numbers cannot be read give nothing. How a
price is read is a parameter; the numbers of type `int` are read as everywhere else. Any
executions at all can be in a feed.
-/

namespace Finm327.Phase3

open Finm327.Hft
open Finm327.Hft2026
open Finm327.Library.DecimalText

universe u

inductive FeedType where
  | bid
  | ask
  | execution
  | unknown
deriving DecidableEq

structure FeedEvent (PriceT : Type u) where
  type : FeedType
  price : PriceT
  quantity : Int32
  orderId : Int32
deriving DecidableEq

/-- `"BID"`. -/
def bidText : List UInt8 := [66, 73, 68]

/-- `"ASK"`. -/
def askText : List UInt8 := [65, 83, 75]

/-- `"EXECUTION"`. -/
def executionText : List UInt8 := [69, 88, 69, 67, 85, 84, 73, 79, 78]

/-- `iss >> type`: the word, which may be empty, and what is left. -/
def readWord (text : List UInt8) : List UInt8 × List UInt8 :=
  (text.dropWhile isSpace).span fun c => !isSpace c

section Load

variable {PriceT : Type u} (readPrice : List UInt8 → Option (PriceT × List UInt8))

def readQuote (type : FeedType) (text : List UInt8) : Option (FeedEvent PriceT) :=
  match readPrice text with
  | none => none
  | some (price, rest) =>
      match readInt rest with
      | none => none
      | some (qty, _) => some ⟨type, price, Int32.ofInt qty, -1⟩

def readExecution [Zero PriceT] (text : List UInt8) : Option (FeedEvent PriceT) :=
  match readInt text with
  | none => none
  | some (orderId, rest) =>
      match readInt rest with
      | none => none
      | some (filled, _) => some ⟨.execution, 0, Int32.ofInt filled, Int32.ofInt orderId⟩

def readLine [Zero PriceT] (line : List UInt8) : Option (FeedEvent PriceT) :=
  if line = [] ∨ line.head? = some 35 then none
  else
    let (type, rest) := readWord line
    if type = bidText then readQuote readPrice .bid rest
    else if type = askText then readQuote readPrice .ask rest
    else if type = executionText then readExecution rest
    else none

/-- `file` is none where the file cannot be opened. -/
def loadFeed [Zero PriceT] (file : Option (List UInt8)) : List (FeedEvent PriceT) :=
  match file with
  | none => []
  | some text => (text.splitOn 10).filterMap (readLine readPrice)

/-- A quote carries no order id, an execution no price, and no event is of unknown type. -/
structure WellFormed [Zero PriceT] (ev : FeedEvent PriceT) : Prop where
  known : ev.type ≠ .unknown
  execution : ev.type = .execution → ev.price = 0
  quote : ev.type ≠ .execution → ev.orderId = -1

theorem read_quote_well_formed [Zero PriceT] {type : FeedType} {text : List UInt8}
    {ev : FeedEvent PriceT} (quote : type = .bid ∨ type = .ask)
    (read : readQuote readPrice type text = some ev) : WellFormed ev := by
  unfold readQuote at read
  cases first : readPrice text with
  | none =>
      rw [first] at read
      cases read
  | some found =>
      rw [first] at read
      dsimp only at read
      cases second : readInt found.2 with
      | none =>
          rw [second] at read
          cases read
      | some qty =>
          rw [second] at read
          cases read
          refine ⟨?_, ?_, fun _ => rfl⟩
          · rcases quote with rfl | rfl <;> nofun
          · rcases quote with rfl | rfl <;> nofun

theorem read_execution_well_formed [Zero PriceT] {text : List UInt8} {ev : FeedEvent PriceT}
    (read : readExecution text = some ev) : WellFormed ev := by
  unfold readExecution at read
  cases first : readInt text with
  | none =>
      rw [first] at read
      cases read
  | some found =>
      rw [first] at read
      dsimp only at read
      cases second : readInt found.2 with
      | none =>
          rw [second] at read
          cases read
      | some filled =>
          rw [second] at read
          cases read
          exact ⟨nofun, fun _ => rfl, fun contrary => absurd rfl contrary⟩

theorem load_feed_well_formed [Zero PriceT] {file : Option (List UInt8)} {ev : FeedEvent PriceT}
    (member : ev ∈ loadFeed readPrice file) : WellFormed ev := by
  cases file with
  | none => cases member
  | some text =>
      obtain ⟨line, -, read⟩ := List.mem_filterMap.mp member
      unfold readLine at read
      dsimp only at read
      split_ifs at read
      · exact read_quote_well_formed readPrice (.inl rfl) read
      · exact read_quote_well_formed readPrice (.inr rfl) read
      · exact read_execution_well_formed read

end Load

/-! ## Feeds of executions -/

/-- The line for an execution. -/
def executionLine (orderId filled : Int32) : List UInt8 :=
  executionText ++ 32 :: (formatInt orderId.toInt ++ 32 :: formatInt filled.toInt)

theorem read_line_execution {PriceT : Type u} [Zero PriceT]
    (readPrice : List UInt8 → Option (PriceT × List UInt8)) (orderId filled : Int32) :
    readLine readPrice (executionLine orderId filled) =
      some ⟨.execution, 0, filled, orderId⟩ := by
  have blank : ∀ c ∈ [(32 : UInt8)], isSpace c = true := List.forall_mem_singleton.mpr (by decide)
  have first : readInt (32 :: (formatInt orderId.toInt ++ 32 :: formatInt filled.toInt)) =
      some (orderId.toInt, 32 :: formatInt filled.toInt) := by
    apply read_int_format blank orderId
    intro c head
    rw [← Option.some.inj head]
    decide
  have second : readInt (32 :: formatInt filled.toInt) = some (filled.toInt, []) := by
    have read := @read_int_format _ [] blank filled nofun
    rw [List.append_nil] at read
    exact read
  have word : readLine readPrice (executionLine orderId filled) =
      readExecution (32 :: (formatInt orderId.toInt ++ 32 :: formatInt filled.toInt)) := rfl
  rw [word, readExecution, first]
  dsimp only
  rw [second]
  dsimp only
  rw [Int32.ofInt_toInt, Int32.ofInt_toInt]

theorem newline_notMem_execution_line (orderId filled : Int32) :
    10 ∉ executionLine orderId filled := by
  intro member
  unfold executionLine at member
  rw [List.mem_append, List.mem_cons, List.mem_append, List.mem_cons] at member
  have without := @format_int_without 10 (by decide) (by decide)
  rcases member with contrary | contrary | own | contrary | own
  · exact absurd contrary (by decide)
  · exact absurd contrary (by decide)
  · exact without orderId.toInt own
  · exact absurd contrary (by decide)
  · exact without filled.toInt own

/-- A file with these lines gives exactly these executions, whatever their integers are. -/
theorem load_feed_executions {PriceT : Type u} [Zero PriceT]
    (readPrice : List UInt8 → Option (PriceT × List UInt8)) (fills : List (Int32 × Int32)) :
    loadFeed readPrice
        (some ([10].intercalate (fills.map fun fill => executionLine fill.1 fill.2))) =
      fills.map fun fill => ⟨.execution, 0, fill.2, fill.1⟩ := by
  unfold loadFeed
  dsimp only
  cases fills with
  | nil => rfl
  | cons fill fills =>
      rw [List.splitOn_intercalate, List.filterMap_map]
      · have reads : (readLine readPrice ∘ fun fill : Int32 × Int32 =>
            executionLine fill.1 fill.2) =
            fun fill => some ⟨.execution, 0, fill.2, fill.1⟩ := by
          funext fill
          exact read_line_execution readPrice fill.1 fill.2
        rw [reads, List.filterMap_eq_map']
      · intro line member
        obtain ⟨own, -, rfl⟩ := List.mem_map.mp member
        exact newline_notMem_execution_line own.1 own.2
      · exact List.cons_ne_nil _ _

end Finm327.Phase3
