/-
  LBoot.Stdlib.Memmove

  `memmove` and `memset` (src/stdlib/string.c).

  Pointers are 32-bit numbers.  `memmove` copies byte by byte in place,
  upwards if the destination is below the source and downwards otherwise; in
  that direction every byte is read before it is overwritten
  (`memmoveUp_eq`, `memmoveDown_eq`), so the whole is the block of the source
  stored at the destination (`memmove_eq`).
-/

import LBoot.Lib.Memory
import LBoot.Lib.Word32

namespace LBoot.Stdlib

open LBoot.Lib

variable {α : Type*}

/-- `while(n--) *_dst++ = *_src++`. -/
def memmoveUp : Nat → Nat → Nat → (Int → α) → Int → α
  | 0, _, _, m => m
  | n + 1, dst, src, m => memmoveUp n (u32 (dst + 1)) (u32 (src + 1)) (storeAt m dst [m src])

/-- `while(n--) *--_dst = *--_src`. -/
def memmoveDown : Nat → Nat → Nat → (Int → α) → Int → α
  | 0, _, _, m => m
  | n + 1, dst, src, m =>
      memmoveDown n (sub32 dst 1) (sub32 src 1) (storeAt m (sub32 dst 1) [m (sub32 src 1)])

/-- `memmove`: the memory it leaves. -/
def memmove (m : Int → α) (dst src n : Nat) : Int → α :=
  if dst < src then memmoveUp n dst src m
  else memmoveDown n (u32 (dst + n)) (u32 (src + n)) m

/-- `memset`: the memory it leaves. -/
def memset (m : Int → α) (s : Nat) (c : α) : Nat → Int → α
  | 0 => m
  | n + 1 => memset (storeAt m s [c]) (u32 (s + 1)) c n

section

variable {n dst src : Nat}

/-- Upwards, what is yet to be read lies above what has been written. -/
theorem memmoveUp_eq (m : Int → α) (hdir : dst ≤ src) (hsrc : src + n ≤ 2 ^ 32) :
    memmoveUp n dst src m = storeAt m dst (loadAt m src n) := by
  induction n generalizing dst src m with
  | zero => rw [memmoveUp, loadAt, storeAt_nil]
  | succ n ih =>
      rw [memmoveUp]
      cases n with
      | zero => rfl
      | succ k =>
          rw [u32_of_lt (by omega), u32_of_lt (by omega), ih _ (by omega) (by omega),
            loadAt_storeAt_disjoint (Or.inr _)]
          · exact storeAt_append m dst [m src] (loadAt m (src + 1) (k + 1))
          · show (dst : Int) + 1 ≤ (src + 1 : Nat)
            omega

/-- Downwards, it lies below. -/
theorem memmoveDown_eq (m : Int → α) (hdir : src ≤ dst) (hdst : dst + n ≤ 2 ^ 32) :
    memmoveDown n (u32 (dst + n)) (u32 (src + n)) m = storeAt m dst (loadAt m src n) := by
  induction n generalizing m with
  | zero => rw [memmoveDown, loadAt, storeAt_nil]
  | succ n ih =>
      have hprev : ∀ p, p + (n + 1) ≤ 2 ^ 32 → sub32 (u32 (p + (n + 1))) 1 = u32 (p + n) := by
        intro p hp
        rw [sub32, u32, u32]
        omega
      rw [memmoveDown, hprev dst hdst, hprev src (by omega), ih _ (by omega),
        u32_of_lt (by omega), u32_of_lt (by omega), loadAt_storeAt_disjoint (Or.inl (by omega)),
        loadAt_append]
      have hlen : (loadAt m src n).length = n := length_loadAt m src n
      calc storeAt (storeAt m (dst + n : Nat) [m (src + n : Nat)]) dst (loadAt m src n)
          = storeAt (storeAt m dst (loadAt m src n)) (dst + n : Nat) [m (src + n : Nat)] :=
            storeAt_comm m (Or.inr (by omega))
        _ = storeAt m dst (loadAt m src n ++ [m (src + n : Nat)]) :=
            storeAt_behind m (by rw [hlen]) _

/-- The block of the source is stored at the destination. -/
theorem memmove_eq (m : Int → α) (hsrc : src + n ≤ 2 ^ 32) (hdst : dst + n ≤ 2 ^ 32) :
    memmove m dst src n = storeAt m dst (loadAt m src n) := by
  rw [memmove]
  split_ifs with hdir
  · exact memmoveUp_eq m (Nat.le_of_lt hdir) hsrc
  · exact memmoveDown_eq m (Nat.le_of_not_lt hdir) hdst

theorem memset_eq (m : Int → α) {s : Nat} (c : α) (hs : s + n ≤ 2 ^ 32) :
    memset m s c n = storeAt m s (List.replicate n c) := by
  induction n generalizing s m with
  | zero => rw [memset, List.replicate_zero, storeAt_nil]
  | succ n ih =>
      rw [memset]
      cases n with
      | zero => rfl
      | succ k =>
          rw [u32_of_lt (by omega), ih _ (by omega)]
          exact storeAt_append m s [c] (List.replicate (k + 1) c)

end

/-- However source and destination overlap, the destination holds what the
    source held, and nothing else changes. -/
theorem memmove_overlap (m : Int → UInt8) (dst src n : Nat) (hsrc : src + n ≤ 2 ^ 32)
    (hdst : dst + n ≤ 2 ^ 32) :
    loadAt (memmove m dst src n) dst n = loadAt m src n ∧
      ∀ x : Int, x < dst ∨ dst + n ≤ x → memmove m dst src n x = m x := by
  rw [memmove_eq m hsrc hdst]
  have hlen : (loadAt m src n).length = n := length_loadAt m src n
  constructor
  · have hload := loadAt_storeAt m dst (loadAt m src n)
    rwa [hlen] at hload
  · intro x hx
    exact storeAt_of_outside (by omega)

/-- Five bytes moved up by one, and down by one. -/
theorem memmove_overlap_five :
    loadAt (memmove (fun x => UInt8.ofNat x.toNat) 11 10 5) 11 5 = [10, 11, 12, 13, 14] ∧
      loadAt (memmove (fun x => UInt8.ofNat x.toNat) 9 10 5) 9 5 = [10, 11, 12, 13, 14] :=
  ⟨(memmove_overlap _ 11 10 5 (by omega) (by omega)).1,
    (memmove_overlap _ 9 10 5 (by omega) (by omega)).1⟩

end LBoot.Stdlib
