import Mathlib.Algebra.Order.Group.Nat
import Mathlib.Data.List.Basic
import PoolWatch.Series.Reduction
/-!
# Blocks of points

A list is cut into a first block, as long as there is room, and the blocks of the rest.  So no
block is empty, and how many blocks there are and where they begin follows from how many elements
are counted before the first one.
-/

namespace PoolWatch.Series

section

variable {α : Type} {chunk room : Nat}

/-! ## The blocks -/

theorem blocks_eq (hroom : 0 < room) {xs : List α} (hxs : xs ≠ []) :
    blocks chunk room xs = xs.take room :: blocks chunk chunk (xs.drop room) := by
  induction xs generalizing room with
  | nil => exact absurd rfl hxs
  | cons x xs ih =>
    obtain ⟨left, rfl⟩ := Nat.exists_eq_add_one_of_ne_zero hroom.ne'
    rw [List.take_succ_cons, List.drop_succ_cons, blocks]
    by_cases hlast : left = 0
    · subst hlast
      rw [if_pos le_rfl, List.take_zero, List.drop_zero]
    · rw [if_neg (by omega), Nat.add_sub_cancel]
      cases xs with
      | nil =>
        rw [List.take_nil, List.drop_nil]
        rfl
      | cons y ys => rw [ih (Nat.pos_of_ne_zero hlast) (List.cons_ne_nil y ys)]

/-- What holds of a list if it holds of the list without its first block, holds of all lists. -/
theorem block_induction {motive : List α → Prop} (nil : motive [])
    (block : ∀ xs, xs ≠ [] → (∀ room, 0 < room → motive (xs.drop room)) → motive xs)
    (xs : List α) : motive xs := by
  induction hlength : xs.length using Nat.strongRecOn generalizing xs with
  | ind n ih =>
    by_cases hxs : xs = []
    · exact hxs ▸ nil
    · have hpos := List.length_pos_of_ne_nil hxs
      refine block xs hxs fun room hroom => ih _ ?_ _ rfl
      rw [List.length_drop]
      omega

theorem ne_nil_of_mem_blocks (hchunk : 0 < chunk) (hroom : 0 < room) {xs b : List α}
    (h : b ∈ blocks chunk room xs) : b ≠ [] := by
  induction xs using block_induction generalizing room with
  | nil => cases h
  | block xs hxs ih =>
    rw [blocks_eq hroom hxs, List.mem_cons] at h
    obtain rfl | hrest := h
    · simpa [List.take_eq_nil_iff, hxs] using hroom.ne'
    · exact ih room hroom hchunk hrest

/-! ## How many blocks there are -/

theorem blockCount_step (hroom : 0 < room) (hle : room ≤ chunk) {n : Nat} (hn : 0 < n) :
    (n - room + chunk - 1) / chunk + 1 = (chunk - room + n + chunk - 1) / chunk := by
  have hsplit : chunk - room + n + chunk - 1 = chunk - room + n - 1 + chunk := by omega
  rw [hsplit, Nat.add_div_right _ (hroom.trans_le hle)]
  obtain hfits | hmore := le_or_gt n room
  · rw [Nat.div_eq_of_lt (by omega), Nat.div_eq_of_lt (by omega)]
  · congr 2
    omega

theorem length_blocks_whole (hchunk : 0 < chunk) (xs : List α) :
    (blocks chunk chunk xs).length = (xs.length + chunk - 1) / chunk := by
  induction xs using block_induction with
  | nil => exact (Nat.div_eq_of_lt (by simp; omega)).symm
  | block xs hxs ih =>
    rw [blocks_eq hchunk hxs, List.length_cons, ih chunk hchunk, List.length_drop,
      blockCount_step hchunk le_rfl (List.length_pos_of_ne_nil hxs), Nat.sub_self, Nat.zero_add]

theorem length_blocks (hroom : 0 < room) (hle : room ≤ chunk) {xs : List α} (hxs : xs ≠ []) :
    (blocks chunk room xs).length = (chunk - room + xs.length + chunk - 1) / chunk := by
  rw [blocks_eq hroom hxs, List.length_cons, length_blocks_whole (hroom.trans_le hle),
    List.length_drop, blockCount_step hroom hle (List.length_pos_of_ne_nil hxs)]

/-! ## Where the blocks begin -/

def firsts (blocks : List (List α)) : List α := blocks.filterMap List.head?

theorem firsts_blocks_cons (hroom : 0 < room) (x : α) (xs : List α) :
    firsts (blocks chunk room (x :: xs)) =
      x :: firsts (blocks chunk chunk (xs.drop (room - 1))) := by
  obtain ⟨left, rfl⟩ := Nat.exists_eq_add_one_of_ne_zero hroom.ne'
  rw [blocks_eq hroom (List.cons_ne_nil x xs)]
  rfl

/-- Of elements that are counted from `k` on, of which `gap` are before the next block, those
begin a block whose count is a multiple of the chunk. -/
theorem firsts_blocks_drop (hchunk : 0 < chunk) {k gap : Nat} (hgap : gap < chunk)
    (hk : chunk ∣ k + gap) (xs : List α) :
    firsts (blocks chunk chunk (xs.drop gap)) =
      ((xs.zipIdx k).filter fun p => chunk ∣ p.2).map Prod.fst := by
  -- with every element that begins no block the gap to the next one closes by one
  induction xs generalizing k gap with
  | nil => rw [List.drop_nil]; rfl
  | cons x xs ih =>
    rw [List.zipIdx_cons]
    cases gap with
    | zero =>
      have hnext : chunk ∣ k + 1 + (chunk - 1) := by
        have hsum : k + 1 + (chunk - 1) = k + 0 + chunk := by omega
        exact hsum ▸ (Nat.dvd_add_self_right.2 hk)
      rw [List.drop_zero, firsts_blocks_cons hchunk, ih (by omega) hnext,
        List.filter_cons_of_pos (by simpa using hk), List.map_cons]
    | succ gap =>
      have hnext : chunk ∣ k + 1 + gap := by
        rwa [Nat.add_assoc, Nat.add_comm 1 gap]
      have hnot : ¬chunk ∣ k := fun hdvd => by
        have hle := Nat.le_of_dvd (Nat.succ_pos gap) ((Nat.dvd_add_iff_right hdvd).2 hk)
        omega
      rw [List.drop_succ_cons, ih (by omega) hnext, List.filter_cons_of_neg (by simpa using hnot)]

theorem firsts_blocks (hroom : 0 < room) (hle : room ≤ chunk) {k : Nat} (hk : chunk ∣ k + room)
    (x : α) (xs : List α) :
    firsts (blocks chunk room (x :: xs)) =
      x :: ((xs.zipIdx (k + 1)).filter fun p => chunk ∣ p.2).map Prod.fst := by
  have hnext : chunk ∣ k + 1 + (room - 1) := by
    have hsum : k + 1 + (room - 1) = k + room := by omega
    exact hsum ▸ hk
  rw [firsts_blocks_cons hroom, firsts_blocks_drop (by omega) (by omega) hnext]

end

/-! ## The means of blocks -/

section

variable {chunk offset : Nat} {points : List Point}

theorem map_x_blockMean (block : List Point) :
    (blockMean block).map (·.x) = block.head?.map (·.x) := by
  cases block with
  | nil => rfl
  | cons p ps => rfl

theorem isSome_blockMean {block : List Point} (h : block ≠ []) : (blockMean block).isSome := by
  cases block with
  | nil => exact absurd rfl h
  | cons p ps => rfl

theorem room_pos (hchunk : 0 < chunk) (offset : Nat) : 0 < chunk - offset % chunk :=
  Nat.sub_pos_of_lt (Nat.mod_lt offset hchunk)

theorem length_chunkMeans (hchunk : 0 < chunk) (hpoints : points ≠ []) :
    (chunkMeans points offset chunk).length =
      (offset % chunk + points.length + chunk - 1) / chunk := by
  have hroom := room_pos hchunk offset
  have hbefore : chunk - (chunk - offset % chunk) = offset % chunk :=
    Nat.sub_sub_self (Nat.mod_lt offset hchunk).le
  have hall : (chunkMeans points offset chunk).length =
      (blocks chunk (chunk - offset % chunk) points).length :=
    List.filterMap_length_eq_length.2 fun block hblock =>
      isSome_blockMean (ne_nil_of_mem_blocks hchunk hroom hblock)
  rw [hall, length_blocks hroom (Nat.sub_le _ _) hpoints, hbefore]

theorem map_x_chunkMeans :
    (chunkMeans points offset chunk).map (·.x) =
      (firsts (blocks chunk (chunk - offset % chunk) points)).map (·.x) := by
  unfold chunkMeans firsts
  rw [List.map_filterMap, List.map_filterMap]
  exact congrArg (List.filterMap · _) (funext map_x_blockMean)

theorem dvd_add_room (hchunk : 0 < chunk) (offset : Nat) :
    chunk ∣ offset + (chunk - offset % chunk) := by
  have hmod := Nat.mod_lt offset hchunk
  have hdiv := Nat.div_add_mod offset chunk
  refine ⟨offset / chunk + 1, ?_⟩
  rw [Nat.mul_add_one]
  omega

theorem exists_mem_tail_chunkMeans (hchunk : 0 < chunk) {x : Float} :
    (∃ q ∈ (chunkMeans points offset chunk).tail, q.x = x) ↔
      ∃ i p, 0 < i ∧ points[i]? = some p ∧ chunk ∣ offset + i ∧ p.x = x := by
  rw [← List.mem_map, List.map_tail, map_x_chunkMeans]
  cases points with
  | nil => simp [firsts, blocks]
  | cons first rest =>
    rw [firsts_blocks (room_pos hchunk offset) (Nat.sub_le _ _) (dvd_add_room hchunk offset),
      List.map_cons, List.tail_cons, List.map_map, List.mem_map]
    constructor
    · rintro ⟨⟨p, count⟩, hp, rfl⟩
      obtain ⟨hmem, hdvd⟩ := List.mem_filter.1 hp
      obtain ⟨hle, hget⟩ := List.mk_mem_zipIdx_iff_le_and_getElem?_sub.1 hmem
      have hindex : count - offset = count - (offset + 1) + 1 := by omega
      have hcount : offset + (count - offset) = count := by omega
      refine ⟨count - offset, p, by omega, ?_, ?_, rfl⟩
      · rw [hindex, List.getElem?_cons_succ]
        exact hget
      · rw [hcount]
        exact of_decide_eq_true hdvd
    · rintro ⟨i, p, hi, hget, hdvd, rfl⟩
      obtain ⟨i, rfl⟩ := Nat.exists_eq_add_one_of_ne_zero hi.ne'
      refine ⟨(p, offset + (i + 1)), List.mem_filter.2 ⟨?_, decide_eq_true hdvd⟩, rfl⟩
      have hindex : offset + (i + 1) - (offset + 1) = i := by omega
      rw [List.mk_mem_zipIdx_iff_le_and_getElem?_sub, hindex]
      exact ⟨by omega, hget⟩

end

end PoolWatch.Series
