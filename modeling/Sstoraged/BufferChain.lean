import Mathlib.Algebra.Order.Ring.Nat
import Mathlib.Data.List.Basic
import Mathlib.Tactic.Common

namespace Sstoraged.BufferChain

variable {B V : Type} (cap : Nat) (mem : B → Nat → V)

/-- A run of consecutive cells of one buffer. -/
def cells (b : B) (off n : Nat) : List V := (List.range' off n).map (mem b)

/-- The cells of a chain of buffers of one capacity. The first buffer is read
from an offset on, every later one from its head. -/
def contents : List B → Nat → List V
  | [], _ => []
  | b :: bs, off => cells mem b off (cap - off) ++ contents bs 0

def capacity : List B → Nat → Nat
  | [], _ => 0
  | _ :: bs, off => cap - off + capacity bs 0

/-- The scatter list (buffer, offset, length) of the first `len` cells. -/
def pieces : List B → Nat → Nat → List (B × Nat × Nat)
  | [], _, _ => []
  | b :: bs, off, len =>
    (b, off, min len (cap - off)) :: pieces bs 0 (len - min len (cap - off))

def gather (ps : List (B × Nat × Nat)) : List V := ps.flatMap (fun p => cells mem p.1 p.2.1 p.2.2)

/-- Step over `n` cells of the chain. -/
def advance : List B → Nat → Nat → List B × Nat
  | [], off, _ => ([], off)
  | b :: bs, off, n => if cap - off ≤ n then advance bs 0 (n - (cap - off)) else (b :: bs, off + n)

@[simp] theorem cells_zero (b : B) (off : Nat) : cells mem b off 0 = [] := rfl

@[simp] theorem length_cells (b : B) (off n : Nat) : (cells mem b off n).length = n := by
  simp [cells]

theorem take_cells (b : B) (off n k : Nat) :
    (cells mem b off n).take k = cells mem b off (min k n) := by
  rcases Nat.le_total n k with h | h
  · rw [List.take_of_length_le (by simpa using h), Nat.min_eq_right h]
  · rw [Nat.min_eq_left h, cells, ← List.map_take, List.take_range'_of_length_ge h, cells]

theorem drop_cells (b : B) (off n k : Nat) :
    (cells mem b off n).drop k = cells mem b (off + k) (n - k) := by
  simp [cells, ← List.map_drop, List.drop_range']

@[simp] theorem gather_nil : gather mem ([] : List (B × Nat × Nat)) = [] := rfl

@[simp] theorem gather_cons (p : B × Nat × Nat) (ps : List (B × Nat × Nat)) :
    gather mem (p :: ps) = cells mem p.1 p.2.1 p.2.2 ++ gather mem ps := rfl

theorem length_gather (ps : List (B × Nat × Nat)) :
    (gather mem ps).length = (ps.map (fun p => p.2.2)).sum := by
  simp [gather, List.length_flatMap]

theorem length_contents (bs : List B) (off : Nat) :
    (contents cap mem bs off).length = capacity cap bs off := by
  induction bs generalizing off with
  | nil => rfl
  | cons b bs ih => rw [contents, List.length_append, length_cells, ih, capacity]

theorem getElem?_contents (hcap : 0 < cap) (bs : List B) (off x : Nat) (hoff : off ≤ cap) :
    (contents cap mem bs off)[x]? =
      (bs[(off + x) / cap]?).map fun b => mem b ((off + x) % cap) := by
  induction bs generalizing off x with
  | nil => simp [contents]
  | cons b bs ih =>
    rw [contents]
    by_cases hx : x < cap - off
    · have hlt : off + x < cap := by omega
      rw [List.getElem?_append_left (by simpa using hx), Nat.div_eq_of_lt hlt, Nat.mod_eq_of_lt hlt]
      simp [cells, hx]
    · have hsplit : off + x = cap + (x - (cap - off)) := by omega
      rw [List.getElem?_append_right (by simpa using hx), length_cells, ih 0 _ (Nat.zero_le cap),
        Nat.zero_add,
        hsplit, Nat.add_div_left _ hcap, Nat.add_mod_left, List.getElem?_cons_succ]

theorem capacity_zero (bs : List B) : capacity cap bs 0 = cap * bs.length := by
  induction bs with
  | nil => rfl
  | cons b bs ih =>
    rw [capacity, ih, List.length_cons, Nat.mul_succ]
    omega

theorem contents_append (bs bs' : List B) (off : Nat) (hne : bs ≠ []) :
    contents cap mem (bs ++ bs') off = contents cap mem bs off ++ contents cap mem bs' 0 := by
  induction bs generalizing off with
  | nil => exact absurd rfl hne
  | cons b bs ih =>
    rw [List.cons_append, contents, contents, List.append_assoc]
    cases bs with
    | nil => rfl
    | cons b' bs => rw [ih 0 (by simp)]

theorem take_contents_append (bs bs' : List B) (off n : Nat) (hne : bs ≠ [])
    (hn : n ≤ capacity cap bs off) :
    (contents cap mem bs off).take n = (contents cap mem (bs ++ bs') off).take n := by
  rw [contents_append cap mem bs bs' off hne, List.take_append_of_le_length]
  rwa [length_contents]

theorem drop_contents_inside (b : B) (bs : List B) (off k : Nat) (h : off + k ≤ cap) :
    (contents cap mem (b :: bs) off).drop k = contents cap mem (b :: bs) (off + k) := by
  have hz : k - (cap - off) = 0 := by omega
  have hs : cap - off - k = cap - (off + k) := by omega
  rw [contents, List.drop_append, length_cells, drop_cells, hz, List.drop_zero, contents, hs]

theorem drop_contents_beyond (b : B) (bs : List B) (off k : Nat) (h : cap - off ≤ k) :
    (contents cap mem (b :: bs) off).drop k = (contents cap mem bs 0).drop (k - (cap - off)) := by
  rw [contents, List.drop_append, length_cells, drop_cells, Nat.sub_eq_zero_of_le h, cells_zero,
    List.nil_append]

theorem gather_pieces (bs : List B) (off len : Nat) :
    gather mem (pieces cap bs off len) = (contents cap mem bs off).take len := by
  induction bs generalizing off len with
  | nil => simp [pieces, contents]
  | cons b bs ih =>
    have hsub : len - min len (cap - off) = len - (cap - off) := by omega
    rw [pieces, gather_cons, ih, contents, List.take_append, length_cells, take_cells, hsub]

end Sstoraged.BufferChain
