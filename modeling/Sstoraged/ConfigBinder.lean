import Mathlib.Data.List.TakeWhile

namespace Sstoraged

/-- A stream over what is left of a file. -/
structure IStream where
  rest : List UInt8
  eofbit : Bool
  failbit : Bool

namespace IStream

def newline : UInt8 := 10

/-- What ends the extraction of a line. -/
inductive Stop
  | eof
  | delim
  | full
  deriving DecidableEq

/-- The end of the file is tested first, then the delimiter, then the room that is left. -/
def extract : Nat → List UInt8 → List UInt8 × List UInt8 × Stop
  | _, [] => ([], [], .eof)
  | room, c :: cs =>
    if c = newline then ([], cs, .delim)
    else
      match room with
      | 0 => ([], c :: cs, .full)
      | room + 1 =>
        let (stored, rest, stop) := extract room cs
        (c :: stored, rest, stop)

/-- `getline` into a buffer of `n` characters. Without room for the end of a line it
fails, and so does an extraction of nothing, and each one from then on. -/
def getline (s : IStream) (n : Nat) : List UInt8 × IStream :=
  if s.eofbit || s.failbit then ([], { s with failbit := true })
  else
    let (stored, rest, stop) := extract (n - 1) s.rest
    (stored, ⟨rest, stop = .eof, stop = .full || (stop = .eof && stored = [])⟩)

end IStream

namespace ConfigBinder

open IStream

def maxCharPerLine : Nat := 128

/-- The characters of a buffer before its first NUL. -/
def cstr (buf : List UInt8) : List UInt8 := buf.takeWhile (· ≠ 0)

/-- The loop of `append`. A loop that does not end has no result. -/
def readLoop : Nat → IStream → List UInt8 → Option (List UInt8)
  | 0, _, _ => none
  | reads + 1, fin, lines =>
    if fin.eofbit then some lines
    else
      let (buf, fin) := fin.getline maxCharPerLine
      readLoop reads fin (lines ++ cstr buf ++ [newline])

/-- The content is that of the file, if it can be opened. -/
def append (content : Option (List UInt8)) (file : String) (reads : Nat) (lines : List UInt8) :
    Option (Except String (List UInt8)) :=
  match content with
  | none => some (.error ("Failed to open : " ++ file))
  | some content => (readLoop reads ⟨content, false, false⟩ lines).map .ok

/-- The loop ends, and each line of the file follows in its place. -/
def Loads (content : List UInt8) (file : String) (lines : List UInt8) : Prop :=
  ∃ reads, append (some content) file reads lines =
    some (.ok (lines ++ (content.splitOn newline).flatMap (· ++ [newline])))

section extract

variable {line : List UInt8} {room : Nat}

theorem extract_line (h : newline ∉ line) (hroom : line.length ≤ room) (cs : List UInt8) :
    extract room (line ++ newline :: cs) = (line, cs, .delim) := by
  induction line generalizing room with
  | nil => cases room <;> rw [List.nil_append, extract, if_pos rfl]
  | cons c line ih =>
    obtain ⟨hc, hline⟩ := not_or.mp (List.mem_cons.not.mp h)
    obtain ⟨room, rfl⟩ := Nat.exists_eq_add_one_of_ne_zero
      (Nat.ne_of_gt (Nat.lt_of_lt_of_le (Nat.succ_pos _) hroom))
    rw [List.cons_append, extract, if_neg (Ne.symm hc), ih hline (Nat.le_of_succ_le_succ hroom)]

theorem extract_last (h : newline ∉ line) (hroom : line.length ≤ room) :
    extract room line = (line, [], .eof) := by
  induction line generalizing room with
  | nil => rw [extract]
  | cons c line ih =>
    obtain ⟨hc, hline⟩ := not_or.mp (List.mem_cons.not.mp h)
    obtain ⟨room, rfl⟩ := Nat.exists_eq_add_one_of_ne_zero
      (Nat.ne_of_gt (Nat.lt_of_lt_of_le (Nat.succ_pos _) hroom))
    rw [extract, if_neg (Ne.symm hc), ih hline (Nat.le_of_succ_le_succ hroom)]

theorem extract_long (h : newline ∉ line) (hroom : room < line.length) (cs : List UInt8) :
    (extract room (line ++ cs)).2.2 = .full := by
  induction line generalizing room with
  | nil => exact absurd hroom (Nat.not_lt_zero _)
  | cons c line ih =>
    obtain ⟨hc, hline⟩ := not_or.mp (List.mem_cons.not.mp h)
    cases room with
    | zero => rw [List.cons_append, extract, if_neg (Ne.symm hc)]
    | succ room =>
      rw [List.cons_append, extract, if_neg (Ne.symm hc)]
      exact ih hline (Nat.lt_of_succ_lt_succ hroom)

end extract

section loop

variable {content line : List UInt8}

theorem line_cases (content : List UInt8) : newline ∉ content ∧ content.splitOn newline = [content] ∨
    ∃ line rest, newline ∉ line ∧ content = line ++ newline :: rest ∧
      content.splitOn newline = line :: rest.splitOn newline := by
  by_cases hmem : newline ∈ content
  · obtain ⟨line, rest, rfl, hline⟩ := List.eq_append_cons_of_mem hmem
    exact .inr ⟨line, rest, hline, rfl, List.splitOn_append_cons_self_of_not_mem hline rest⟩
  · exact .inl ⟨hmem, List.splitOn_eq_singleton hmem⟩

theorem cstr_eq (h : 0 ∉ line) : cstr line = line := by
  apply List.takeWhile_eq_self_iff.mpr
  exact fun c hc => decide_eq_true fun heq => h (heq ▸ hc)

theorem readLoop_stuck (reads : Nat) : ∀ {fin : IStream} (lines : List UInt8), fin.failbit = true →
    fin.eofbit = false → readLoop reads fin lines = none := by
  induction reads with
  | zero => exact fun _ _ _ => rfl
  | succ reads ih =>
    intro fin lines hfail heof
    have hline : fin.getline maxCharPerLine = ([], { fin with failbit := true }) := by
      apply if_pos
      rw [hfail, Bool.or_true]
    rw [readLoop, heof, hline]
    exact ih _ rfl heof

theorem getline_line (h : newline ∉ line) (hlength : line.length < maxCharPerLine) (rest : List UInt8) :
    getline ⟨line ++ newline :: rest, false, false⟩ maxCharPerLine = (line, ⟨rest, false, false⟩) := by
  unfold getline
  dsimp only
  rw [extract_line h (Nat.le_sub_one_of_lt hlength)]
  rfl

theorem getline_last (h : newline ∉ line) (hlength : line.length < maxCharPerLine) :
    ∃ failbit, getline ⟨line, false, false⟩ maxCharPerLine = (line, ⟨[], true, failbit⟩) := by
  refine ⟨decide (line = []), ?_⟩
  unfold getline
  dsimp only
  rw [extract_last h (Nat.le_sub_one_of_lt hlength)]
  rfl

theorem getline_long (h : newline ∉ line) (hlength : maxCharPerLine ≤ line.length) (rest : List UInt8) :
    ∃ stored rest', getline ⟨line ++ rest, false, false⟩ maxCharPerLine =
      (stored, ⟨rest', false, true⟩) := by
  have hstop : (extract (maxCharPerLine - 1) (line ++ rest)).2.2 = .full := extract_long h hlength rest
  unfold getline
  dsimp only
  generalize extract (maxCharPerLine - 1) (line ++ rest) = extracted at hstop ⊢
  obtain ⟨stored, rest', stop⟩ := extracted
  obtain rfl : stop = .full := hstop
  exact ⟨stored, rest', rfl⟩

theorem readLoop_short (hnul : 0 ∉ content)
    (hshort : ∀ line ∈ content.splitOn newline, line.length < maxCharPerLine)
    (lines : List UInt8) : ∃ reads, readLoop reads ⟨content, false, false⟩ lines =
      some (lines ++ (content.splitOn newline).flatMap (· ++ [newline])) := by
  induction hlen : content.length using Nat.strong_induction_on generalizing content lines with
  | _ n ih =>
    obtain ⟨hmem, hsplit⟩ | ⟨line, rest, hline, rfl, hsplit⟩ := line_cases content
    · rw [hsplit] at hshort ⊢
      obtain ⟨failbit, hget⟩ := getline_last hmem (hshort content List.mem_cons_self)
      refine ⟨2, ?_⟩
      rw [readLoop, if_neg Bool.false_ne_true, hget]
      dsimp only
      rw [readLoop, if_pos rfl, cstr_eq hnul]
      simp
    · rw [hsplit] at hshort ⊢
      obtain ⟨hfirst, hshort⟩ := List.forall_mem_cons.mp hshort
      obtain ⟨hnul, hrest⟩ := not_or.mp (List.mem_append.not.mp hnul)
      have hless : rest.length < n := by
        rw [← hlen, List.length_append, List.length_cons]
        omega
      obtain ⟨reads, hreads⟩ := ih rest.length hless
        (fun hzero => hrest (List.mem_cons_of_mem _ hzero)) hshort
        (lines ++ line ++ [newline]) rfl
      refine ⟨reads + 1, ?_⟩
      rw [readLoop, if_neg Bool.false_ne_true, getline_line hline hfirst]
      dsimp only
      rw [cstr_eq hnul, hreads]
      simp

theorem readLoop_long (reads : Nat) : ∀ (content lines : List UInt8),
    (∃ line ∈ content.splitOn newline, maxCharPerLine ≤ line.length) →
    readLoop reads ⟨content, false, false⟩ lines = none := by
  induction reads with
  | zero => exact fun _ _ _ => rfl
  | succ reads ih =>
    intro content lines hlong
    rw [readLoop, if_neg Bool.false_ne_true]
    obtain ⟨hmem, hsplit⟩ | ⟨line, rest, hline, rfl, hsplit⟩ := line_cases content
    · rw [hsplit] at hlong
      obtain ⟨line, hline, hlength⟩ := hlong
      obtain rfl := List.mem_singleton.mp hline
      obtain ⟨stored, rest', hget⟩ := getline_long hmem hlength []
      rw [List.append_nil] at hget
      rw [hget]
      exact readLoop_stuck _ _ rfl rfl
    · rw [hsplit] at hlong
      by_cases hlength : maxCharPerLine ≤ line.length
      · obtain ⟨stored, rest', hget⟩ := getline_long hline hlength (newline :: rest)
        rw [hget]
        exact readLoop_stuck _ _ rfl rfl
      · obtain ⟨line', hmem, hlength'⟩ := hlong
        obtain rfl | hmem := List.mem_cons.mp hmem
        · exact absurd hlength' hlength
        · rw [getline_line hline (Nat.lt_of_not_le hlength)]
          exact ih _ _ ⟨line', hmem, hlength'⟩

end loop

/-- Loading ends, with every line of the file in the text, if and only if the buffer of a
line is longer than each of them. -/
theorem loads_iff_short (content : List UInt8) (hnul : 0 ∉ content) (file : String)
    (lines : List UInt8) :
    Loads content file lines ↔ ∀ line ∈ content.splitOn newline, line.length < maxCharPerLine := by
  constructor
  · rintro ⟨reads, hreads⟩ line hline
    by_contra hlength
    unfold append at hreads
    dsimp only at hreads
    rw [readLoop_long reads content lines ⟨line, hline, Nat.le_of_not_lt hlength⟩] at hreads
    cases hreads
  · intro hshort
    obtain ⟨reads, hreads⟩ := readLoop_short hnul hshort lines
    refine ⟨reads, ?_⟩
    unfold append
    dsimp only
    rw [hreads, Option.map_some]

/-- Two lines, an empty one between them, and no newline at the end. -/
theorem loads_three_lines : Loads [97, 10, 10, 98] "sstoraged.conf" [] :=
  (loads_iff_short [97, 10, 10, 98] (by decide) "sstoraged.conf" []).mpr (by decide)

/-- A line of 128 characters. -/
theorem not_loads_long : ¬ ∀ (content : List UInt8), 0 ∉ content →
    ∀ (file : String) (lines : List UInt8),
    Loads content file lines := by
  intro hall
  have hletters : ∀ c, c ≠ 97 → c ∉ List.replicate 128 (97 : UInt8) := fun c hc hmem =>
    hc (List.eq_of_mem_replicate hmem)
  obtain ⟨reads, hreads⟩ := hall (List.replicate 128 97) (hletters 0 (by decide)) "sstoraged.conf" []
  have hnone : readLoop reads ⟨List.replicate 128 97, false, false⟩ [] = none := by
    apply readLoop_long
    rw [List.splitOn_eq_singleton (hletters newline (by decide))]
    exact ⟨_, List.mem_singleton_self _, Nat.le_of_eq (List.length_replicate).symm⟩
  unfold append at hreads
  dsimp only at hreads
  rw [hnone] at hreads
  cases hreads

end ConfigBinder

end Sstoraged
