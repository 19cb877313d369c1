import PoolWatch.Proofs.Series.Budget
/-!
# The partition into chunks

Chunks cut the points of a series into blocks, one after another, that lose nothing.  A cut stands
where the count of points, virtual ones included, is a multiple of the chunk, and nowhere else.
Every block leaves one point, so there are as many of them as chunks are counted.
-/

namespace PoolWatch.Series

open PoolWatch.Numeric

/-! ## Cuts -/

section

variable {α : Type} {chunk room offset i : Nat} {xs b : List α} {bs : List (List α)}

/-- Blocks are cut before the element with a number: those in front hold as many elements. -/
def CutBefore (bs : List (List α)) (i : Nat) : Prop :=
  ∃ front back, bs = front ++ back ∧ front.flatten.length = i

/-- Blocks that have all elements in order, none of them empty, and are cut where the count of
elements is a multiple of the chunk. -/
structure IsChunking (offset chunk : Nat) (xs : List α) (bs : List (List α)) : Prop where
  flatten_eq : bs.flatten = xs
  ne_nil : ∀ b ∈ bs, b ≠ []
  cut_iff : ∀ i, 0 < i → i < xs.length → (CutBefore bs i ↔ chunk ∣ offset + i)

theorem cutBefore_zero : CutBefore bs 0 := ⟨[], bs, rfl, rfl⟩

theorem cutBefore_cons (hi : 0 < i) :
    CutBefore (b :: bs) i ↔ b.length ≤ i ∧ CutBefore bs (i - b.length) := by
  constructor
  · rintro ⟨front, back, happend, hlength⟩
    cases front with
    | nil =>
      rw [List.flatten_nil, List.length_nil] at hlength
      omega
    | cons c front =>
      obtain ⟨rfl, rfl⟩ := List.cons.inj happend
      rw [List.flatten_cons, List.length_append] at hlength
      exact ⟨by omega, front, back, rfl, by omega⟩
  · rintro ⟨hle, front, back, rfl, hlength⟩
    refine ⟨b :: front, back, rfl, ?_⟩
    rw [List.flatten_cons, List.length_append]
    omega

theorem flatten_blocks (hchunk : 0 < chunk) (hroom : 0 < room) (xs : List α) :
    (blocks chunk room xs).flatten = xs := by
  induction xs using block_induction generalizing room with
  | nil => rw [blocks, List.flatten_nil]
  | block xs hxs ih =>
    rw [blocks_eq hroom hxs, List.flatten_cons, ih room hroom hchunk, List.take_append_drop]

theorem cutBefore_blocks (hroom : 0 < room) (hle : room ≤ chunk) {k : Nat} (hk : chunk ∣ k + room)
    (hi : 0 < i) (hlt : i < xs.length) :
    CutBefore (blocks chunk room xs) i ↔ chunk ∣ k + i := by
  induction xs using block_induction generalizing room k i with
  | nil => exact absurd hlt (Nat.not_lt_zero i)
  | block xs hxs ih =>
    rw [blocks_eq hroom hxs, cutBefore_cons hi, List.length_take]
    obtain hinside | rfl | hafter := Nat.lt_trichotomy i room
    · -- the next multiple is where the first block ends
      have hnot : ¬ chunk ∣ k + i := fun hdvd => by
        have hgap : chunk ∣ room - i := by
          have hsum : k + room = k + i + (room - i) := by omega
          exact (Nat.dvd_add_iff_right hdvd).2 (hsum ▸ hk)
        have := Nat.le_of_dvd (by omega) hgap
        omega
      exact iff_of_false (fun hcut => by omega) hnot
    · rw [Nat.min_eq_left hlt.le, Nat.sub_self]
      exact iff_of_true ⟨le_rfl, cutBefore_zero⟩ hk
    · have hrest : i - room < (xs.drop room).length := by
        rw [List.length_drop]
        omega
      have hsum : k + room + (i - room) = k + i := by omega
      rw [Nat.min_eq_left (by omega), and_iff_right hafter.le,
        ih room hroom (hroom.trans_le hle) le_rfl (Nat.dvd_add_self_right.2 hk) (by omega) hrest,
        hsum]

theorem isChunking_blocks (hchunk : 0 < chunk) (offset : Nat) (xs : List α) :
    IsChunking offset chunk xs (blocks chunk (chunk - offset % chunk) xs) where
  flatten_eq := flatten_blocks hchunk (room_pos hchunk offset) xs
  ne_nil _ h := ne_nil_of_mem_blocks hchunk (room_pos hchunk offset) h
  cut_iff _ := cutBefore_blocks (room_pos hchunk offset) (Nat.sub_le _ _)
    (dvd_add_room hchunk offset)

end

/-! ## Means -/

/-- A point that a block leaves: it stands where the first point of the block does, at the sum of
the values in order, divided by their number. -/
structure IsMeanOf (p : Point) (block : List Point) : Prop where
  time : block.head?.map (·.x) = some p.x
  value : p.y = sum (block.map (·.y)) / Float.ofNat block.length

theorem isMeanOf_of_blockMean {p : Point} {block : List Point} (h : blockMean block = some p) :
    IsMeanOf p block := by
  cases block with
  | nil => cases h
  | cons q qs =>
    obtain rfl := Option.some.inj h
    exact ⟨rfl, by rw [List.length_map]⟩

theorem forall₂_isMeanOf {bs : List (List Point)} (h : ∀ b ∈ bs, b ≠ []) :
    List.Forall₂ IsMeanOf (bs.filterMap blockMean) bs := by
  induction bs with
  | nil => exact .nil
  | cons b bs ih =>
    obtain ⟨hb, hbs⟩ := List.forall_mem_cons.1 h
    obtain ⟨p, hp⟩ := Option.isSome_iff_exists.1 (isSome_blockMean hb)
    rw [List.filterMap_cons_some hp]
    exact .cons (isMeanOf_of_blockMean hp) (ih hbs)

/-- Chunks cut points into blocks at the multiples of the chunk and leave the mean of each block,
and these are as many as are counted, if the count does not overflow. -/
theorem chunkMeans_of_chunking {points : List Point} (hpoints : points ≠ []) (offset : Nat)
    {chunk : Nat} (hchunk : 1 ≤ chunk) :
    (∃ bs, IsChunking offset chunk points bs ∧
        List.Forall₂ IsMeanOf (chunkMeans points offset chunk) bs) ∧
      (chunkMeans points offset chunk).length = filled points.length offset chunk ∧
      (offset % chunk + points.length ≤ unsignedMax →
        chunkCount points.length offset chunk = .ok (chunkMeans points offset chunk).length) := by
  have hlength : (chunkMeans points offset chunk).length = filled points.length offset chunk :=
    length_chunkMeans hchunk hpoints
  have hblocks := isChunking_blocks hchunk offset points
  exact ⟨⟨_, hblocks, forall₂_isMeanOf hblocks.ne_nil⟩, hlength,
    fun hfits => chunkCount_eq_ok.2 ⟨hfits, hlength.symm⟩⟩

def fiveSteps : List Point := [⟨0, 0⟩, ⟨1, 1⟩, ⟨2, 2⟩, ⟨3, 3⟩, ⟨4, 4⟩]

theorem fiveSteps_of_chunking :
    chunkMeans fiveSteps 1 2 = [⟨0, 0⟩, ⟨1, 1.5⟩, ⟨3, 3.5⟩] ∧
      (∃ bs, IsChunking 1 2 fiveSteps bs ∧
        List.Forall₂ IsMeanOf [⟨0, 0⟩, ⟨1, 1.5⟩, ⟨3, 3.5⟩] bs) ∧
      chunkCount 5 1 2 = .ok 3 := by
  have hmeans : chunkMeans fiveSteps 1 2 = [⟨0, 0⟩, ⟨1, 1.5⟩, ⟨3, 3.5⟩] := by decide +kernel
  obtain ⟨hblocks, -, hcount⟩ :=
    @chunkMeans_of_chunking fiveSteps (List.cons_ne_nil _ _) 1 2 (by decide)
  rw [hmeans] at hblocks hcount
  exact ⟨hmeans, hblocks, hcount (by decide)⟩

end PoolWatch.Series
