import FlowScript.Proofs.Layout.Alignment
import FlowScript.Proofs.Positions.Fill
import FlowScript.Proofs.Positions.Scan

/-! The layout by positions, and the three readers together. The closing brackets that a line starts
with are counted in characters, and the line is cut at that number of bytes. -/

namespace FlowScript.Positions

open Layout

def place (pos : Position) (line : String) : Option (List Entry × Position) := do
  let count := (line.toList.takeWhile isCloser).length
  let (level, stack) := closeLeading (line.toList.take count) (innerLevel pos.stack) pos.stack
  let gap :=
    if pos.gap && count == 0 && !pos.previous.any endsWithOpener then [Entry.blank] else []
  let inner ← slice? line count line.utf8ByteSize
  return (gap ++ [.line level line.toList],
    ⟨scanBrackets level .outside stack inner.toList, some line.toList, false⟩)

def entries : Position → List (List Char) → Option (List Entry)
  | _, [] => return []
  | pos, raw :: rest =>
    match Text.trimChars raw with
    | [] => entries { pos with gap := pos.previous.isSome } rest
    | line => do
      let (placed, next) ← place pos (String.ofList line)
      return placed ++ (← entries next rest)

def normalize (text : String) (width : Nat) : Option String := do
  let all ← entries .start (Text.splitLines text.toList)
  return String.ofList (write width all)

section Lines

theorem toNat_lt_of_isCloser {c : Char} (h : isCloser c) : c.toNat < 128 := by
  unfold isCloser Bracket.closing? at h
  split at h
  · decide
  · decide
  · decide
  · simp at h

theorem slice?_closers (line : List Char) :
    slice? (String.ofList line) (line.takeWhile isCloser).length
      (String.ofList line).utf8ByteSize = some (String.ofList (line.dropWhile isCloser)) := by
  have hcount := utf8ByteSize_ofList_of_all (fun _ => toNat_lt_of_isCloser)
    (fun c (hc : c ∈ line.takeWhile isCloser) => List.mem_takeWhile_imp hc)
  have hline : String.ofList line =
      String.ofList (line.takeWhile isCloser) ++ String.ofList (line.dropWhile isCloser) := by
    rw [← String.ofList_append, List.takeWhile_append_dropWhile]
  rw [← hcount, hline]
  exact slice?_end ..

theorem closeLeading_takeWhile (line : List Char) (inner : Nat) (stack : List Open) :
    closeLeading (line.takeWhile isCloser) inner stack = closeLeading line inner stack := by
  have hrest : ¬startsWithCloser (line.dropWhile isCloser) := by
    have hhead := List.head?_dropWhile_not isCloser line
    cases hdrop : line.dropWhile isCloser with
    | nil => exact Bool.false_ne_true
    | cons c rest => simpa [startsWithCloser, hdrop] using hhead
  have happend := closeLeading_append
    (fun c (hc : c ∈ line.takeWhile isCloser) => List.mem_takeWhile_imp hc)
    (line.dropWhile isCloser) inner stack
  rw [List.takeWhile_append_dropWhile, closeLeading_of_not_startsWithCloser hrest] at happend
  exact happend.symm

theorem length_takeWhile_isCloser (line : List Char) :
    ((line.takeWhile isCloser).length == 0) = !startsWithCloser line := by
  cases line with
  | nil => rfl
  | cons c rest => by_cases hc : isCloser c <;> simp [startsWithCloser, hc]

theorem place_eq (pos : Position) (line : List Char) :
    place pos (String.ofList line) = some (pos.place line) := by
  have htake : line.take (line.takeWhile isCloser).length = line.takeWhile isCloser :=
    (List.prefix_iff_eq_take.mp (List.takeWhile_prefix isCloser)).symm
  rw [place, Position.place, Position.keepsGap, String.toList_ofList, htake,
    closeLeading_takeWhile, length_takeWhile_isCloser, slice?_closers]
  simp

theorem entries_eq (pos : Position) (lines : List (List Char)) :
    entries pos lines = some (pos.entries lines) := by
  induction lines generalizing pos with
  | nil => rfl
  | cons raw rest ih =>
    rw [entries, Position.entries]
    cases Text.trimChars raw with
    | nil => exact ih _
    | cons c line =>
      dsimp only
      rw [place_eq, Option.bind_eq_bind, Option.bind_some, ih]
      rfl

theorem normalize_eq (text : String) (width : Nat) :
    normalize text width = some (Layout.normalize text width) := by
  rw [normalize, entries_eq]
  rfl

end Lines

section Agreement

/-- A slice is there exactly between two borders of characters. Whatever the text, every slice is
there that the scan of placeholders, the filling of path tokens and the layout take by positions in
bytes, and each of them gives what is defined over the characters of the text. -/
theorem positions_agree :
    (∀ s t start stop, slice? s start stop = some t ↔
      ∃ before behind, s = before ++ t ++ behind ∧ start = before.utf8ByteSize ∧
        stop = (before ++ t).utf8ByteSize) ∧
      (∀ s, scan s = some (Template.scan s)) ∧
      (∀ (m : Type → Type) [Monad m] [LawfulMonad m] (endpoint : String) (params : List Pair)
        (onMissing : String → m Unit),
        (fill endpoint params onMissing).run = some <$> Endpoint.fill endpoint params onMissing) ∧
      ∀ text width, normalize text width = some (Layout.normalize text width) := by
  refine ⟨fun _ _ _ _ => slice?_eq_some_iff, scan_eq, ?_, normalize_eq⟩
  intro m _ _ endpoint params onMissing
  rw [fill_eq, OptionT.run_lift, map_eq_pure_bind]

theorem positions_agree_wideText :
    scan "é$a€$😀$\x7bb\x7dü$ñ" =
        some [.text "é", .var "a", .text "€", .bare, .text "😀", .var "b", .text "ü", .bare,
          .text "ñ"] ∧
      ((fill (m := StateM (List String)) "/ü:id€:é:x😀" [⟨"id", .string "ß:x"⟩]
        fun name => modify (· ++ [name])).run.run []).run = (some "/üß:x€:é:x😀", ["x"]) ∧
      normalize "ü(\n\x7d)é(\n€\n)ñ" 2 = some "ü(\n\x7d)é(\n  €\n)ñ\n" := by
  obtain ⟨-, hscan, hfill, hnormalize⟩ := positions_agree
  refine ⟨(hscan _).trans ?_, ?_, (hnormalize _ _).trans ?_⟩
  · decide +kernel
  · rw [hfill]
    decide +kernel
  · decide +kernel

end Agreement

end FlowScript.Positions
