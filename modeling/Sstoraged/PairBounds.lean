import Sstoraged.PairSegment
import Sstoraged.TokenStream

namespace Sstoraged.PairBounds

open TokenStream

/-- The pieces of some bytes that end with a NUL each, and what is left behind the last. -/
def splitNul : List UInt8 → List (List UInt8)
  | [] => []
  | b :: data =>
    if b = 0 then [] :: splitNul data
    else match splitNul data with
      | [] => [[b]]
      | str :: strs => (b :: str) :: strs

def pairsOf (data : List UInt8) : List (String × String) :=
  (splitNul data).map fun str => getKeyValuePair (ofBytes str)

/-- The bytes behind the last NUL. -/
def lastText : List UInt8 → List UInt8
  | [] => []
  | b :: bytes => if 0 ∈ b :: bytes then lastText bytes else b :: bytes

section texts

variable {str text head rest body : List UInt8}

theorem splitNul_text (h : 0 ∉ str) (hne : str ≠ []) : splitNul str = [str] := by
  induction str with
  | nil => exact absurd rfl hne
  | cons b str ih =>
    rw [List.mem_cons, not_or] at h
    rw [splitNul, if_neg (Ne.symm h.1)]
    cases str with
    | nil => rfl
    | cons c str => rw [ih h.2 (List.cons_ne_nil c str)]

theorem splitNul_append (h : 0 ∉ str) (rest : List UInt8) :
    splitNul (str ++ 0 :: rest) = str :: splitNul rest := by
  induction str with
  | nil => rw [List.nil_append, splitNul, if_pos rfl]
  | cons b str ih =>
    rw [List.mem_cons, not_or] at h
    rw [List.cons_append, splitNul, if_neg (Ne.symm h.1), ih h.2]

theorem lastText_text (h : 0 ∉ str) : lastText str = str := by
  cases str with
  | nil => rfl
  | cons b str => rw [lastText, if_neg h]

theorem lastText_append (str rest : List UInt8) : lastText (str ++ 0 :: rest) = lastText rest := by
  induction str with
  | nil => rw [List.nil_append, lastText, if_pos List.mem_cons_self]
  | cons b str ih =>
    rw [List.cons_append, lastText, if_pos (by simp), ih]

theorem dataStrings_cons {dlength : Nat} (hpos : dlength ≠ 0) (h : 0 ∉ str) (rest : List UInt8) :
    dataStrings dlength (str ++ 0 :: rest) =
      (dataStrings (dlength - (str.length + 1)) rest).map fun strs => str :: strs := by
  rw [dataStrings, if_neg hpos, cString_append h]
  rfl

theorem dataPairs_cons {dlength : Nat} (hpos : dlength ≠ 0) (h : 0 ∉ str) (rest : List UInt8) :
    dataPairs dlength (str ++ 0 :: rest) =
      (dataPairs (dlength - (str.length + 1)) rest).map fun ps =>
        getKeyValuePair (ofBytes str) :: ps := by
  rw [dataPairs, dataStrings_cons hpos h, dataPairs, Option.map_map, Option.map_map]
  rfl

theorem dataStrings_terminated (head rest : List UInt8) (h : 0 ∉ text) :
    dataStrings (head.length + 1) (head ++ text ++ 0 :: rest) = some
      (splitNul (head ++ text ++ [0])) := by
  induction hn : head.length using Nat.strongRecOn generalizing head with
  | ind n ih =>
    by_cases hmem : 0 ∈ head
    · obtain ⟨str, head', rfl, hstr⟩ := List.eq_append_cons_of_mem hmem
      rw [List.length_append, List.length_cons] at hn
      have hrest := ih head'.length (by omega) head' rfl
      have hleft : n + 1 - (str.length + 1) = head'.length + 1 := by omega
      simp only [List.append_assoc, List.cons_append] at hrest ⊢
      rw [dataStrings_cons (Nat.succ_ne_zero n) hstr, hleft, hrest, splitNul_append hstr,
        Option.map_some]
    · have hstr : 0 ∉ head ++ text := by
        rw [List.mem_append, not_or]
        exact ⟨hmem, h⟩
      have hleft : n + 1 - ((head ++ text).length + 1) = 0 := by
        rw [List.length_append]
        omega
      rw [dataStrings_cons (Nat.succ_ne_zero n) hstr, hleft, dataStrings_zero,
        splitNul_append hstr, splitNul]
      rfl

theorem dataPairs_terminated (head rest : List UInt8) (h : 0 ∉ text) :
    dataPairs (head.length + 1) (head ++ text ++ 0 :: rest) = some (pairsOf (head ++ text ++ [0])) := by
  rw [dataPairs, dataStrings_terminated head rest h, Option.map_some, pairsOf]

/-- The characters of the pair that a text is split into. -/
def pairSize (str : List UInt8) : Nat :=
  (getKeyValuePair (ofBytes str)).1.toList.length + (getKeyValuePair (ofBytes str)).2.toList.length

theorem getKeyValuePair_none (h : 0x3d ∉ str) : getKeyValuePair (ofBytes str) = ("", "") := by
  have hall : ∀ c ∈ (ofBytes str).toList.reverse, decide (c ≠ '=') = true := by
    intro c hc
    rw [ofBytes, String.toList_ofList, List.mem_reverse, List.mem_map] at hc
    obtain ⟨b, hb, rfl⟩ := hc
    rw [decide_eq_true_eq]
    intro heq
    have hequals : Char.ofUInt8 0x3d = '=' := by decide
    rw [← hequals] at heq
    exact h (ofUInt8_injective heq ▸ hb)
  rw [getKeyValuePair, List.dropWhile_eq_nil_iff.2 hall]

/-- What a text says to the handler: a text without a `=` says no more than the text `=`. -/
def pairText (str : List UInt8) : List UInt8 := if 0x3d ∈ str then str else [0x3d]

theorem mem_pairText (str : List UInt8) : 0x3d ∈ pairText str := by
  unfold pairText
  split <;> simp_all

theorem exists_pairBytes (h : 0x3d ∈ str) : ∃ p, str = PairBuffer.pairBytes p ∧ 0x3d ∉ p.2 := by
  obtain ⟨before, behind, hrev, hbehind⟩ := List.eq_append_cons_of_mem (List.mem_reverse.2 h)
  refine ⟨(behind.reverse, before.reverse), ?_, fun hb => hbehind (List.mem_reverse.1 hb)⟩
  rw [← List.reverse_reverse str, hrev]
  simp [PairBuffer.pairBytes]

theorem getKeyValuePair_pairText (str : List UInt8) :
    getKeyValuePair (ofBytes (pairText str)) = getKeyValuePair (ofBytes str) := by
  unfold pairText
  split
  · rfl
  · rename_i hmem
    rw [getKeyValuePair_none hmem]
    exact (getKeyValuePair_pairBytes ([], [])).2 List.not_mem_nil

theorem ofBytes_injective : Function.Injective ofBytes := fun _ _ h =>
  List.map_injective_iff.2 ofUInt8_injective (String.ofList_injective h)

theorem getKeyValuePair_eq_iff (str str' : List UInt8) :
    getKeyValuePair (ofBytes str) = getKeyValuePair (ofBytes str') ↔ pairText str = pairText str' := by
  rw [← getKeyValuePair_pairText str, ← getKeyValuePair_pairText str']
  refine ⟨fun heq => ?_, fun heq => by rw [heq]⟩
  obtain ⟨p, hp, hvalue⟩ := exists_pairBytes (mem_pairText str)
  obtain ⟨p', hp', hvalue'⟩ := exists_pairBytes (mem_pairText str')
  rw [hp, hp', (getKeyValuePair_pairBytes p).2 hvalue, (getKeyValuePair_pairBytes p').2 hvalue'] at heq
  obtain ⟨hkey, hval⟩ := Prod.mk.inj heq
  rw [hp, hp', Prod.ext (ofBytes_injective hkey) (ofBytes_injective hval)]

/-- The texts of some bytes, as far as they matter. -/
def pairTexts (data : List UInt8) : List (List UInt8) := (splitNul data).map pairText

theorem pairsOf_eq_iff (data data' : List UInt8) : pairsOf data = pairsOf data' ↔
    pairTexts data = pairTexts data' := by
  have hmap (strs strs' : List (List UInt8)) :
      (strs.map fun str => getKeyValuePair (ofBytes str)) =
        strs'.map (fun str => getKeyValuePair (ofBytes str)) ↔
        strs.map pairText = strs'.map pairText := by
    induction strs generalizing strs' with
    | nil => cases strs' <;> simp
    | cons str strs ih =>
      cases strs' with
      | nil => simp
      | cons str' strs' => simp only [List.map_cons, List.cons.injEq, getKeyValuePair_eq_iff, ih]
  exact hmap _ _

theorem pairSize_eq (str : List UInt8) : pairSize str = if 0x3d ∈ str then str.length - 1 else 0 := by
  split
  · rename_i hmem
    obtain ⟨p, rfl, hvalue⟩ := exists_pairBytes hmem
    rw [pairSize, (getKeyValuePair_pairBytes _).2 hvalue]
    simp [ofBytes, PairBuffer.pairBytes]
  · rename_i hmem
    rw [pairSize, getKeyValuePair_none hmem]
    rfl

theorem getKeyValuePair_extended (hstr : str ≠ []) (htext : text ≠ []) :
    getKeyValuePair (ofBytes str) = getKeyValuePair (ofBytes (str ++ text)) ↔ 0x3d ∉ str ++ text := by
  have hs := List.length_pos_iff.2 hstr
  have ht := List.length_pos_iff.2 htext
  refine ⟨fun heq hmem => ?_, fun hmem => ?_⟩
  · have hsize : pairSize str = pairSize (str ++ text) := by rw [pairSize, pairSize, heq]
    rw [pairSize_eq, pairSize_eq, if_pos hmem, List.length_append] at hsize
    split at hsize <;> omega
  · rw [getKeyValuePair_none hmem, getKeyValuePair_none fun h => hmem (List.mem_append_left _ h)]

theorem dataPairs_unterminated {dlength : Nat} (hpos : dlength ≠ 0) (h : 0 ∉ body.drop (dlength - 1))
    (rest rest' : List UInt8) {ps : List (String × String)}
    (hps : dataPairs dlength (body ++ 0 :: rest) = some ps) :
    dataPairs dlength (body ++ 0x3d :: 0x78 :: 0 :: rest') ≠ some ps := by
  induction hn : body.length using Nat.strongRecOn generalizing body dlength ps with
  | ind n ih =>
    by_cases hmem : 0 ∈ body
    · obtain ⟨str, body', rfl, hstr⟩ := List.eq_append_cons_of_mem hmem
      rw [List.length_append, List.length_cons] at hn
      have hlt : str.length + 1 < dlength := by
        by_contra hle
        apply h
        rw [List.drop_append_of_le_length (by omega)]
        exact List.mem_append_right _ List.mem_cons_self
      have hdrop : (str ++ 0 :: body').drop (dlength - 1) =
          body'.drop (dlength - (str.length + 1) - 1) := by
        have hsum : dlength - 1 = (str ++ [0]).length + (dlength - (str.length + 1) - 1) := by
          rw [List.length_append, List.length_singleton]
          omega
        have happ : str ++ 0 :: body' = str ++ [0] ++ body' := by simp
        rw [hsum, happ, List.drop_length_add_append]
      rw [hdrop] at h
      rw [List.append_assoc, List.cons_append, dataPairs_cons hpos hstr] at hps ⊢
      obtain ⟨ps', hps', rfl⟩ := Option.map_eq_some_iff.1 hps
      intro heq
      obtain ⟨ps'', hps'', heq'⟩ := Option.map_eq_some_iff.1 heq
      rw [List.cons.injEq] at heq'
      rw [heq'.2] at hps''
      exact ih body'.length (by omega) (by omega) h hps' rfl hps''
    · have hlong : 0 ∉ body ++ [0x3d, 0x78] := by
        rw [List.mem_append, not_or]
        exact ⟨hmem, by decide⟩
      have happ : body ++ 0x3d :: 0x78 :: 0 :: rest' = body ++ [0x3d, 0x78] ++ 0 :: rest' := by simp
      rw [dataPairs_cons hpos hmem] at hps
      rw [happ, dataPairs_cons hpos hlong]
      obtain ⟨ps', -, rfl⟩ := Option.map_eq_some_iff.1 hps
      intro heq
      obtain ⟨ps'', -, heq'⟩ := Option.map_eq_some_iff.1 heq
      rw [List.cons.injEq] at heq'
      have hsize : pairSize (body ++ [0x3d, 0x78]) = pairSize body := by rw [pairSize, pairSize, heq'.1]
      rw [pairSize_eq, pairSize_eq, if_pos (by simp), List.length_append] at hsize
      have htwo : [(0x3d : UInt8), 0x78].length = 2 := rfl
      split at hsize <;> omega

/-- A last text that is cut off in front of its NUL has the same pair just if nothing but
the NUL is cut off, or there is no `=` in it. -/
theorem pairsOf_cut (head : List UInt8) {c : UInt8} (h : 0 ∉ c :: text) :
    pairsOf (head ++ c :: text ++ [0]) = pairsOf (head ++ [c]) ↔
      text = [] ∨ 0x3d ∉ lastText head ++ c :: text := by
  induction hn : head.length using Nat.strongRecOn generalizing head with
  | ind n ih =>
    by_cases hmem : 0 ∈ head
    · obtain ⟨str, head', rfl, hstr⟩ := List.eq_append_cons_of_mem hmem
      rw [List.length_append, List.length_cons] at hn
      have hrest := ih head'.length (by omega) head' rfl
      rw [lastText_append, ← hrest]
      simp only [pairsOf, List.append_assoc, List.cons_append, splitNul_append hstr, List.map_cons,
        List.cons.injEq, true_and]
    · have hall : 0 ∉ head ++ c :: text := by
        rw [List.mem_append, not_or]
        exact ⟨hmem, h⟩
      have hcut : 0 ∉ head ++ [c] := fun hm => hall (by
        rw [List.mem_append] at hm ⊢
        exact hm.imp id fun hc => List.mem_cons.2 (.inl (List.mem_singleton.1 hc)))
      have hne : head ++ [c] ≠ [] := by simp
      rw [pairsOf, pairsOf, splitNul_append hall, splitNul_text hcut hne, lastText_text hmem]
      have happ : head ++ c :: text = head ++ [c] ++ text := by simp
      rw [happ]
      by_cases htext : text = []
      · simp [htext, splitNul]
      · rw [← getKeyValuePair_extended hne htext]
        simp [htext, splitNul, eq_comm]

end texts

/-- A Login or a Text PDU as it was sent, with its padding. -/
structure Pdu where
  bytes : List UInt8
  length_eq : bytes.length = (Parser.mk fun i => bytes[i]?.getD 0).getPDUlength

namespace Pdu

def bhs (p : Pdu) : Header := fun i => p.bytes[i]?.getD 0

def hlength (p : Pdu) : Nat := (Parser.mk p.bhs).getHlength
def dlength (p : Pdu) : Nat := (Parser.mk p.bhs).getDlength

/-- The data segment. -/
def data (p : Pdu) : List UInt8 := (p.bytes.drop (sizeofHeader + p.hlength)).take p.dlength

/-- The bytes of the PDU that stand behind its header in the buffer that it begins in. The
tokenizer copies no more than the header from the next buffer. -/
def body (p : Pdu) (pos : Nat) : List UInt8 :=
  (p.bytes.take (max sizeofHeader (commonBufSize - pos % commonBufSize))).drop sizeofHeader

/-- The text that is read last is the last one of the data segment, or there is no `=` in
it; behind an additional header, the texts that are read happen to say what those of the
data segment do. -/
def SamePairs (p : Pdu) (head text : List UInt8) : Prop :=
  if p.hlength = 0 then text.length ≤ 1 ∨ 0x3d ∉ lastText head ++ text
  else pairTexts (head ++ text ++ [0]) = pairTexts p.data

/-- The condition: a NUL of the PDU, in its first buffer, ends the text that the last byte
that counts is in, and the pairs up to there are those of the data segment. -/
def Ends (p : Pdu) (pos : Nat) : Prop :=
  p.dlength = 0 ∨ ∃ text rest, (p.body pos).drop (p.dlength - 1) = text ++ 0 :: rest ∧ 0 ∉ text ∧
    p.SamePairs ((p.body pos).take (p.dlength - 1)) text

end Pdu

/-- A buffer has some more bytes than it is used for. -/
def commonRealSize : Nat := commonBufSize + 512

/-- The receive buffers when the handler gets a PDU that stands at a position of the stream:
all of it was read, and its header was joined. The memory that the buffer of the header lies
in goes on up to `top` at least. -/
structure Run (p : Pdu) (pos : Nat) where
  stream : Nat → UInt8
  mem : Nat → Nat → UInt8
  read : Nat
  top : Nat
  layout : Layout stream mem read
  header : HeaderAt stream mem pos
  own : ∀ i (h : i < p.bytes.length), stream (pos + i) = p.bytes[i]
  received : pos + p.bytes.length ≤ read
  mapped : commonRealSize ≤ top

namespace Run

variable {p : Pdu} {pos : Nat}

def bhs (r : Run p pos) : Header := headerAt r.mem (pos / commonBufSize) (pos % commonBufSize)

/-- The memory from the end of the header on. -/
def memory (r : Run p pos) : List UInt8 :=
  (List.range (r.top - (pos % commonBufSize + sizeofHeader))).map fun i =>
    r.mem (pos / commonBufSize) (pos % commonBufSize + sizeofHeader + i)

/-- The pairs that the handler parses. -/
def pairs (r : Run p pos) : Option (List (String × String)) :=
  dataPairs (Parser.mk r.bhs).getDlength r.memory

end Run

/-- Whatever is around the PDU, the pairs are those of its data segment. -/
def Right (p : Pdu) (pos : Nat) : Prop := ∀ r : Run p pos, r.pairs = some (pairsOf p.data)

section pdus

variable {p : Pdu} {pos : Nat}

theorem length_ge (p : Pdu) : sizeofHeader + p.hlength + p.dlength ≤ p.bytes.length := by
  rw [p.length_eq, Parser.getPDUlength]
  change _ ≤ if (sizeofHeader + p.hlength + p.dlength) % padWordLen ≠ 0 then _ else _
  split
  · exact Nat.le_add_right _ _
  · exact Nat.le_refl _

theorem Run.dlength_eq (r : Run p pos) : (Parser.mk r.bhs).getDlength = p.dlength := by
  refine getDlength_congr fun i hi => ?_
  have hlt : i < p.bytes.length := by
    have hge := length_ge p
    omega
  rw [Run.bhs, r.header i hi, Pdu.bhs, List.getElem?_eq_getElem hlt, Option.getD_some]
  exact r.own i hlt

theorem length_body (p : Pdu) (pos : Nat) : (p.body pos).length =
    min (max sizeofHeader (commonBufSize - pos % commonBufSize)) p.bytes.length - sizeofHeader := by
  rw [Pdu.body, List.length_drop, List.length_take]

theorem Run.memory_eq (r : Run p pos) : ∃ around, r.memory = p.body pos ++ around := by
  have hlen := length_body p pos
  have hmapped := r.mapped
  have hlt : pos % commonBufSize < commonBufSize := Nat.mod_lt _ (by decide)
  have hreal : commonRealSize = commonBufSize + 512 := rfl
  have hheader : sizeofHeader = 48 := rfl
  have htake : r.memory.take (p.body pos).length = p.body pos := by
    apply List.ext_getElem
    · rw [List.length_take, Run.memory, List.length_map, List.length_range]
      omega
    · intro i hi hi'
      rw [List.getElem_take]
      simp only [Run.memory, List.getElem_map, List.getElem_range, Pdu.body, List.getElem_drop,
        List.getElem_take]
      have hplace := place pos (sizeofHeader + i)
      have hreceived := r.received
      rw [← r.own _ (by omega), ← hplace, Nat.add_assoc]
      exact r.layout _ _ (by omega) (by omega)
  obtain ⟨around, heq⟩ := List.prefix_iff_eq_take.2 htake.symm
  exact ⟨around, heq.symm⟩

/-- The PDU from the beginning of its header on, as far as its first buffer holds it, with
something behind. -/
def image (p : Pdu) (pos : Nat) (around : List UInt8) : List UInt8 :=
  p.bytes.take (max sizeofHeader (commonBufSize - pos % commonBufSize)) ++ around

theorem image_getElem? (p : Pdu) (pos : Nat) (around : List UInt8) {i : Nat} (h : i < p.bytes.length)
    (hi : i < max sizeofHeader (commonBufSize - pos % commonBufSize)) :
    (image p pos around)[i]? = some p.bytes[i] := by
  rw [image, List.getElem?_append_left (by rw [List.length_take]; omega), List.getElem?_take_of_lt hi,
    List.getElem?_eq_getElem h]

theorem exists_run (p : Pdu) (pos : Nat) (around : List UInt8) :
    ∃ (r : Run p pos) (rest : List UInt8), r.memory = p.body pos ++ around ++ rest := by
  have hge := length_ge p
  let stream : Nat → UInt8 := fun j => p.bytes[j - pos]?.getD 0
  let mem : Nat → Nat → UInt8 := fun b i =>
    if b = pos / commonBufSize ∧ pos % commonBufSize ≤ i then
      (image p pos around)[i - pos % commonBufSize]?.getD 0
    else stream (commonBufSize * b + i)
  have hmem : ∀ i, mem (pos / commonBufSize) (pos % commonBufSize + i) =
      (image p pos around)[i]?.getD 0 := by
    intro i
    have hin : pos / commonBufSize = pos / commonBufSize ∧
      pos % commonBufSize ≤ pos % commonBufSize + i :=
      ⟨rfl, Nat.le_add_right _ _⟩
    dsimp only [mem]
    rw [if_pos hin, Nat.add_sub_cancel_left]
  have hown : ∀ i (h : i < p.bytes.length), stream (pos + i) = p.bytes[i] := by
    intro i h
    dsimp only [stream]
    rw [Nat.add_sub_cancel_left, List.getElem?_eq_getElem h, Option.getD_some]
  have hlayout : Layout stream mem (pos + p.bytes.length) := by
    intro b i hi hread
    by_cases hb : b = pos / commonBufSize ∧ pos % commonBufSize ≤ i
    · obtain ⟨rfl, hle⟩ := hb
      obtain ⟨j, rfl⟩ := Nat.exists_eq_add_of_le hle
      rw [place] at hread ⊢
      have hj : j < p.bytes.length := by omega
      rw [hmem, image_getElem? p pos around hj (by omega), Option.getD_some, hown j hj]
    · exact if_neg hb
  have hheader : HeaderAt stream mem pos := by
    intro i hi
    have hlt : i < p.bytes.length := by omega
    rw [headerAt, hmem, image_getElem? p pos around hlt (by omega), Option.getD_some,
      headerOf, hown i hlt]
  let top := commonRealSize + (pos % commonBufSize + (image p pos around).length)
  let r : Run p pos :=
    ⟨stream, mem, pos + p.bytes.length, top, hlayout, hheader, hown, Nat.le_refl _, Nat.le_add_right _ _⟩
  have himage : p.body pos ++ around = (image p pos around).drop sizeofHeader := by
    rw [image, List.drop_append_of_le_length (by rw [List.length_take]; omega), Pdu.body]
  have htake : r.memory.take (p.body pos ++ around).length = p.body pos ++ around := by
    rw [himage]
    apply List.ext_getElem
    · rw [List.length_take, Run.memory, List.length_map, List.length_range, List.length_drop]
      dsimp only [r, top]
      omega
    · intro i hi hi'
      rw [List.length_drop] at hi'
      rw [List.getElem_take]
      simp only [Run.memory, List.getElem_map, List.getElem_range, List.getElem_drop]
      dsimp only [r]
      rw [Nat.add_assoc, hmem, List.getElem?_eq_getElem (by omega), Option.getD_some]
  obtain ⟨rest, heq⟩ := List.prefix_iff_eq_take.2 htake.symm
  exact ⟨r, rest, heq.symm⟩

theorem pairs_terminated (r : Run p pos) (hpos : p.dlength ≠ 0) {text rest : List UInt8}
    (htext : 0 ∉ text)
    (h : (p.body pos).drop (p.dlength - 1) = text ++ 0 :: rest) :
    r.pairs = some (pairsOf ((p.body pos).take (p.dlength - 1) ++ text ++ [0])) := by
  obtain ⟨around, hmemory⟩ := r.memory_eq
  have hlen : ((p.body pos).take (p.dlength - 1)).length + 1 = p.dlength := by
    have hdrop := congrArg List.length h
    rw [List.length_drop, List.length_append, List.length_cons] at hdrop
    rw [List.length_take]
    omega
  have hsplit : r.memory = (p.body pos).take (p.dlength - 1) ++ text ++ 0 :: (rest ++ around) := by
    have hbody := List.take_append_drop (p.dlength - 1) (p.body pos)
    rw [h] at hbody
    rw [hmemory, ← congrArg (· ++ around) hbody]
    simp
  rw [Run.pairs, r.dlength_eq, hsplit]
  have hpairs := dataPairs_terminated ((p.body pos).take (p.dlength - 1)) (rest ++ around) htext
  rwa [hlen] at hpairs

/-- The texts up to the NUL have the pairs of the data segment just if the last of them
has. -/
theorem samePairs_iff (hpos : p.dlength ≠ 0) {text rest : List UInt8} (htext : 0 ∉ text)
    (h : (p.body pos).drop (p.dlength - 1) = text ++ 0 :: rest) :
    pairsOf ((p.body pos).take (p.dlength - 1) ++ text ++ [0]) = pairsOf p.data ↔
      p.SamePairs ((p.body pos).take (p.dlength - 1)) text := by
  rw [Pdu.SamePairs]
  split
  · rename_i hhlength
    have hdata : p.data = (p.body pos).take (p.dlength - 1) ++
        ((p.body pos).drop (p.dlength - 1)).take 1 := by
      have hone : p.dlength - 1 + 1 = p.dlength := by omega
      have hle : p.dlength ≤ max sizeofHeader (commonBufSize - pos % commonBufSize) - sizeofHeader := by
        have hdrop := congrArg List.length h
        rw [List.length_drop, List.length_append, List.length_cons, length_body] at hdrop
        omega
      rw [← List.take_add, hone, Pdu.body, List.drop_take, List.take_take, Nat.min_eq_left hle, Pdu.data,
        hhlength, Nat.add_zero]
    rw [hdata, h]
    cases text with
    | nil => simp
    | cons c text =>
      have hcut := pairsOf_cut ((p.body pos).take (p.dlength - 1)) htext
      simpa using hcut
  · exact pairsOf_eq_iff _ _

theorem not_right_of_unterminated (hpos : p.dlength ≠ 0) (h : 0 ∉ (p.body pos).drop (p.dlength - 1)) :
    ¬ Right p pos := by
  intro hright
  obtain ⟨r, rest, hr⟩ := exists_run p pos [0]
  obtain ⟨r', rest', hr'⟩ := exists_run p pos [0x3d, 0x78, 0]
  have hpairs := hright r
  have hpairs' := hright r'
  rw [Run.pairs, Run.dlength_eq, hr, List.append_assoc] at hpairs
  rw [Run.pairs, Run.dlength_eq, hr', List.append_assoc] at hpairs'
  exact dataPairs_unterminated hpos h _ _ hpairs hpairs'

/-- A PDU is parsed as its data segment just if the parser stays inside of it. -/
theorem right_iff_ends (p : Pdu) (pos : Nat) : Right p pos ↔ p.Ends pos := by
  rw [Pdu.Ends]
  by_cases hzero : p.dlength = 0
  · have hdata : p.data = [] := by rw [Pdu.data, hzero, List.take_zero]
    refine ⟨fun _ => .inl hzero, fun _ r => ?_⟩
    rw [Run.pairs, r.dlength_eq, hzero, hdata, dataPairs, dataStrings_zero]
    rfl
  · refine ⟨fun h => .inr ?_, fun h r => ?_⟩
    · by_cases hmem : 0 ∈ (p.body pos).drop (p.dlength - 1)
      · obtain ⟨text, rest, heq, htext⟩ := List.eq_append_cons_of_mem hmem
        obtain ⟨r, -⟩ := exists_run p pos []
        have hpairs := (pairs_terminated r hzero htext heq).symm.trans (h r)
        exact ⟨text, rest, heq, htext, (samePairs_iff hzero htext heq).1 (Option.some.inj hpairs)⟩
      · exact absurd h (not_right_of_unterminated hzero hmem)
    · obtain hzero' | ⟨text, rest, heq, htext, hsame⟩ := h
      · exact absurd hzero' hzero
      · rw [pairs_terminated r hzero htext heq, (samePairs_iff hzero htext heq).2 hsame]

end pdus

section Sample

/-- A Login request with the data segment `IFMarker=Yes`, without a NUL and without padding. -/
def sampleLogin : Pdu where
  bytes := [0x43, 0x87, 0, 0, 0, 0, 0, 12] ++ List.replicate 40 0 ++
    [0x49, 0x46, 0x4d, 0x61, 0x72, 0x6b, 0x65, 0x72, 0x3d, 0x59, 0x65, 0x73]
  length_eq := by decide

/-- At the beginning of a buffer, its value goes on into what was in the buffer before. -/
theorem not_right_login : ¬ Right sampleLogin 0 :=
  not_right_of_unterminated (by decide) (by decide +kernel)

end Sample

end Sstoraged.PairBounds
