import HxcppLuv.Core.Machine
import HxcppLuv.File.ReadChain
import Mathlib.Tactic.Ring

/-!
`File.read` against an open descriptor. The first link reads at the descriptor's
position (offset -1) and the later ones at the accumulated offset, which starts
from that same -1; so the second link starts one byte before the end of the
first chunk. The whole content arrives only when there is none.
-/

namespace HxcppLuv.File

open Asio

/-- An open seekable file: its bytes and the position of the descriptor. -/
structure Descriptor where
  contents : List UInt8
  pos : Nat
  deriving DecidableEq

/-- Where `uv__fs_read` starts: `read` at the position, `pread` at the offset. -/
def Descriptor.start (f : Descriptor) (off : Int) : Nat :=
  if off < 0 then f.pos else off.toNat

/-- `uv__fs_read` with one buffer of 1024 bytes, transferring `n` bytes. It
transfers none exactly at the end of the file. -/
def Descriptor.uvFsRead (f : Descriptor) (off : Int) (n : Nat) :
    Option (List UInt8 × Descriptor) :=
  let left := f.contents.length - f.start off
  if n ≤ left ∧ n ≤ 1024 ∧ (n = 0 ↔ left = 0) then
    some ((f.contents.drop (f.start off)).take n,
      if off < 0 then { f with pos := f.pos + n } else f)
  else none

/-- A read in progress: `data` is what the chain owns, and it has ended when
there is none. -/
structure Transfer where
  file : Descriptor
  data : Option ReadRequestData
  log : List Effect

namespace Transfer

def calls (t : Transfer) : List (Result (List UInt8) Code) := t.log.filterMap userCall

/-- The outstanding request completes with `n` bytes; `uv_fs_read` accepts every
submission of the chain. -/
def step (t : Transfer) (n : Nat) : Option Transfer :=
  t.data.bind fun d =>
    (t.file.uvFsRead d.offset n).map fun (base, file) =>
      let (data, effects) := readCallback d n base 0
      ⟨file, data, t.log ++ effects⟩

end Transfer

/-- `File.read` on a descriptor whose file holds `c` and whose position is `p`. -/
def readMachine (c : List UInt8) (p : Nat) : Machine Transfer Nat where
  init := ⟨⟨c, p⟩, (read 0 startOffset 0).1, (read 0 startOffset 0).2⟩
  step := Transfer.step

/-- The chain ends however the transfer is split, and then, and only then, the
user has been called once, with the whole content. -/
def DeliversWhole (c : List UInt8) (p : Nat) : Prop :=
  (∃ N, ∀ ns t, (readMachine c p).run (readMachine c p).init ns = some t → ns.length ≤ N) ∧
  ∀ ns t, (readMachine c p).run (readMachine c p).init ns = some t →
    t.calls = if t.data = none then [Result.success c] else []

section Chain

variable {c : List UInt8} {p : Nat}

/-- The chain is waiting for a link at `off`, has delivered `len` bytes and the
descriptor stands at `pos`. -/
def Transfer.At (t : Transfer) (c : List UInt8) (off : Int) (len pos : Nat) : Prop :=
  t.file = ⟨c, pos⟩ ∧ t.calls = [] ∧
    ∃ d, t.data = some d ∧ d.offset = off ∧ d.array.length = len

theorem init_at (c : List UInt8) (p : Nat) : (readMachine c p).init.At c (-1) 0 p :=
  ⟨rfl, rfl, _, rfl, rfl, rfl⟩

theorem step_eq {t : Transfer} {d : ReadRequestData} {n : Nat} {base : List UInt8}
    {file : Descriptor} (hd : t.data = some d)
    (hread : t.file.uvFsRead d.offset n = some (base, file)) :
    (readMachine c p).step t n =
      some ⟨file, (readCallback d n base 0).1, t.log ++ (readCallback d n base 0).2⟩ := by
  simp [readMachine, Transfer.step, hd, hread]

/-- A positive result keeps the chain going. -/
theorem step_pos {t : Transfer} {off : Int} {len pos n : Nat} (h : t.At c off len pos)
    (hn : 0 < n) (hmax : n ≤ 1024)
    (hleft : n ≤ c.length - (Descriptor.mk c pos).start off) :
    ∃ t', (readMachine c p).step t n = some t' ∧
      t'.At c (cInt (off + n)) (len + n) (if off < 0 then pos + n else pos) := by
  obtain ⟨hfile, hcalls, d, hd, rfl, rfl⟩ := h
  have hread : t.file.uvFsRead d.offset n =
      some ((c.drop ((Descriptor.mk c pos).start d.offset)).take n,
        if d.offset < 0 then ⟨c, pos + n⟩ else ⟨c, pos⟩) := by
    have hn0 : ¬ n = 0 := by omega
    have hl0 : ¬ c.length - (Descriptor.mk c pos).start d.offset = 0 := by omega
    simp [hfile, Descriptor.uvFsRead, hleft, hmax, hn0, hl0]
  refine ⟨_, step_eq hd hread, ?_⟩
  rw [readCallback_pos (Int.natCast_pos.mpr hn) (Int.le_refl 0)]
  refine ⟨?_, ?_, _, rfl, rfl, ?_⟩
  · split <;> rfl
  · simpa [Transfer.calls, userCall] using hcalls
  · simp only [Int.toNat_natCast, List.length_append, List.length_take, List.length_drop]
    omega

/-- At the end of the file the chain ends and reports what it has gathered. -/
theorem step_zero {t : Transfer} {off : Int} {len pos : Nat} (h : t.At c off len pos)
    (hleft : c.length ≤ (Descriptor.mk c pos).start off) :
    ∃ t' b, (readMachine c p).step t 0 = some t' ∧ t'.data = none ∧
      t'.calls = [Result.success b] ∧ b.length = len := by
  obtain ⟨hfile, hcalls, d, hd, rfl, rfl⟩ := h
  have hread : t.file.uvFsRead d.offset 0 =
      some ([], if d.offset < 0 then ⟨c, pos⟩ else ⟨c, pos⟩) := by
    simp [hfile, Descriptor.uvFsRead, hleft]
  refine ⟨_, d.array, step_eq hd hread, ?_⟩
  rw [Nat.cast_zero, readCallback_zero]
  refine ⟨rfl, ?_, rfl⟩
  rw [Transfer.calls] at hcalls
  simp only [Transfer.calls, List.filterMap_append, hcalls]
  rfl

/-- While nothing wraps, links of one byte walk the offset up the file. -/
theorem run_pread_ones {t : Transfer} {off len pos : Nat} (k : Nat)
    (h : t.At c off len pos) (hint : off + k < 2 ^ 31) (hend : off + k ≤ c.length) :
    ∃ t', (readMachine c p).run t (List.replicate k 1) = some t' ∧
      t'.At c (off + k : Nat) (len + k) pos := by
  induction k generalizing t off len with
  | zero => exact ⟨t, rfl, h⟩
  | succ k ih =>
      have hnn : ¬ ((off : Int) < 0) := by omega
      have hstart : (Descriptor.mk c pos).start off = off := by
        simp [Descriptor.start, hnn]
      obtain ⟨u, hu, hat⟩ := step_pos (p := p) h Nat.one_pos (by omega) (by rw [hstart]; omega)
      rw [if_neg hnn, cInt_of_mem (by omega) (by omega)] at hat
      rw [show (off : Int) + (1 : Nat) = (off + 1 : Nat) from by omega] at hat
      obtain ⟨t', hrun, hat'⟩ := ih hat (by omega) (by omega)
      refine ⟨t', ?_, ?_⟩
      · simpa [List.replicate_succ, Machine.run, hu] using hrun
      · rwa [show off + 1 + k = off + (k + 1) by omega,
          show len + 1 + k = len + (k + 1) by omega] at hat'

/-- Links of one byte to the end. A link at an offset moves it by as much as it
delivers, so up to the wrap at 2^31 the bytes that came from an offset, less the
offset itself, stay the same modulo 2^31; when the whole content has arrived they
number `p`. -/
theorem offset_bytes_congr (hwhole : DeliversWhole c p) (hp : p < c.length) {N : Nat}
    (hN : ∀ ns t, (readMachine c p).run (readMachine c p).init ns = some t → ns.length ≤ N)
    (fuel : Nat) {ns : List Nat} {t : Transfer} {off : Int} {len pos : Nat}
    (hrun : (readMachine c p).run (readMachine c p).init ns = some t)
    (hfuel : N < ns.length + fuel) (h : t.At c off len pos)
    (hl : -2 ^ 31 ≤ off) (hu : off < 2 ^ 31) (hoff : (off + 1 - len) % 2 ^ 32 = 0)
    (hpos : p ≤ pos) (hend : pos ≤ c.length) :
    (len + p - pos - max off 0) % 2 ^ 31 = p % 2 ^ 31 ∧ 2 ^ 31 < c.length := by
  induction fuel generalizing ns t off len pos with
  | zero =>
      have := hN ns t hrun
      omega
  | succ fuel ih =>
      by_cases hleft : c.length ≤ (Descriptor.mk c pos).start off
      · obtain ⟨t', b, hstep, hnone, hcalls, hb⟩ := step_zero (p := p) h hleft
        have hrun' : (readMachine c p).run (readMachine c p).init (ns ++ [0]) = some t' := by
          simp [Machine.run_append, hrun, Machine.run, hstep]
        have hw := hwhole.2 _ _ hrun'
        rw [hcalls, hnone, if_pos rfl] at hw
        cases hw
        -- the chain has ended with the whole content, so it was reading at the position
        simp only [Descriptor.start] at hleft
        split at hleft <;> omega
      · obtain ⟨t', hstep, hat⟩ := step_pos (p := p) h Nat.one_pos (by omega) (by omega)
        have hrun' : (readMachine c p).run (readMachine c p).init (ns ++ [1]) = some t' := by
          simp [Machine.run_append, hrun, Machine.run, hstep]
        have hlen : (ns ++ [1]).length = ns.length + 1 := by simp
        rw [Nat.not_le] at hleft
        simp only [Descriptor.start] at hleft
        have hw := cInt_eq (off + (1 : Nat))
        by_cases hneg : off < 0
        · rw [if_pos hneg] at hat hleft
          have := ih hrun' (by omega) hat (by omega) (by omega) (by omega) (by omega) (by omega)
          omega
        · rw [if_neg hneg] at hat hleft
          have := ih hrun' (by omega) hat (by omega) (by omega) (by omega) hpos hend
          omega

theorem not_deliversWhole_of_lt (hp : p < c.length) : ¬ DeliversWhole c p := by
  intro hwhole
  obtain ⟨N, hN⟩ := hwhole.1
  obtain ⟨t₁, hstep₁, hat₁⟩ := step_pos (p := p) (init_at c p) Nat.one_pos (by omega)
    (by simp only [Descriptor.start]; split <;> omega)
  have hrun₁ : (readMachine c p).run (readMachine c p).init [1] = some t₁ := by
    simp [Machine.run, hstep₁]
  rw [if_pos (by omega), show cInt (-1 + (1 : Nat)) = ((0 : Nat) : Int) from by decide] at hat₁
  obtain ⟨hcong₁, hbig⟩ := offset_bytes_congr hwhole hp hN (N + 1) hrun₁ (by omega) hat₁
    (by omega) (by omega) (by omega) (by omega) (by omega)
  -- now the same start, but the last link before the wrap delivers two bytes
  obtain ⟨t₂, hrun₂, hat₂⟩ := run_pread_ones (p := p) (2 ^ 31 - 1) hat₁ (by omega) (by omega)
  obtain ⟨t₃, hstep₃, hat₃⟩ := step_pos (p := p) hat₂ Nat.two_pos (by omega)
    (by simp only [Descriptor.start]; split <;> omega)
  have hrun₃ : (readMachine c p).run (readMachine c p).init
      ([1] ++ (List.replicate (2 ^ 31 - 1) 1 ++ [2])) = some t₃ := by
    rw [Machine.run_append, hrun₁, Option.bind_some, Machine.run_append, hrun₂]
    simp only [Option.bind_some, Machine.run, hstep₃]
  have hw := cInt_eq ((0 + (2 ^ 31 - 1) : Nat) + (2 : Nat))
  rw [if_neg (by omega)] at hat₃
  have := offset_bytes_congr hwhole hp hN (N + 1) hrun₃ (by omega) hat₃
    (by omega) (by omega) (by omega) (by omega) (by omega)
  omega

theorem not_deliversWhole_of_le (hc : c ≠ []) (hp : c.length ≤ p) : ¬ DeliversWhole c p := by
  intro hwhole
  obtain ⟨t, b, hstep, hnone, hcalls, hb⟩ := step_zero (p := p) (init_at c p)
    (by simp only [Descriptor.start]; split <;> omega)
  have hw := hwhole.2 [0] t (by simp [Machine.run, hstep])
  rw [hcalls, hnone, if_pos rfl] at hw
  cases hw
  exact hc (List.length_eq_zero_iff.mp hb)

theorem deliversWhole_nil (p : Nat) : DeliversWhole [] p := by
  have hlast : ∀ n t, (readMachine [] p).step (readMachine [] p).init n = some t →
      t.data = none ∧ t.calls = [Result.success []] := by
    intro n t h
    cases n with
    | zero =>
        obtain ⟨t', b, hstep, hnone, hcalls, hb⟩ := step_zero (init_at [] p) (Nat.zero_le _)
        cases hstep.symm.trans h
        rw [List.length_eq_zero_iff.mp hb] at hcalls
        exact ⟨hnone, hcalls⟩
    | succ n =>
        simp [readMachine, Transfer.step, read, startOffset, Descriptor.uvFsRead] at h
  have hstop : ∀ t n, t.data = none → (readMachine [] p).step t n = none := by
    intro t n h
    simp [readMachine, Transfer.step, h]
  refine ⟨⟨1, fun ns t h => ?_⟩, fun ns t h => ?_⟩
  · match ns, h with
    | [], _ | [_], _ => simp
    | n :: m :: ns, h =>
        obtain ⟨u, hu, hrest⟩ := Machine.run_cons_eq_some _ h
        obtain ⟨v, hv, -⟩ := Machine.run_cons_eq_some _ hrest
        rw [hstop u m (hlast n u hu).1] at hv
        cases hv
  · match ns, h with
    | [], h => cases h; rfl
    | n :: ns, h =>
        obtain ⟨u, hu, hrest⟩ := Machine.run_cons_eq_some _ h
        obtain ⟨hnone, hcalls⟩ := hlast n u hu
        cases ns with
        | nil => cases hrest; rw [hcalls, hnone, if_pos rfl]
        | cons m ms =>
            obtain ⟨v, hv, -⟩ := Machine.run_cons_eq_some _ hrest
            rw [hstop u m hnone] at hv
            cases hv

end Chain

/-- Whatever the position of the descriptor, only an empty file arrives whole. -/
theorem deliversWhole_iff (c : List UInt8) (p : Nat) : DeliversWhole c p ↔ c = [] := by
  constructor
  · intro h
    by_contra hc
    rcases Nat.lt_or_ge p c.length with hp | hp
    · exact not_deliversWhole_of_lt hp h
    · exact not_deliversWhole_of_le hc hp h
  · rintro rfl
    exact deliversWhole_nil p

/-- A freshly opened file holding `ab`, read in one chunk, arrives as `abb`. -/
theorem read_repeats_last_byte : ¬ DeliversWhole [97, 98] 0 ∧
    ((readMachine [97, 98] 0).run (readMachine [97, 98] 0).init [2, 1, 0]).map Transfer.calls =
      some [Result.success [97, 98, 98]] :=
  ⟨not_deliversWhole_of_lt (by decide), by decide⟩

end HxcppLuv.File
