import PeerClaw.Lib.Utf8
import PeerClaw.Wasm.Capabilities

/-!
# The functions that a WASM module calls

A module calls four functions of the host with a pointer and a length of 32 bits.  They are taken
as words of 64 bits with their sign, the end of the range is their sum, which wraps around, and
only the end is compared with the size of the memory.

* `HostCall.run` — a call, which may panic.
* `HostCall.safe_iff` — when a call stays within the memory, or leaves everything as it is.
-/

namespace PeerClaw

open Lib

/-- `as usize`, which keeps the sign in the upper half. -/
def asUsize (x : Int32) : UInt64 := x.toInt64.toUInt64

/-- The memory that a module exports.  No slice has `2^63` bytes. -/
structure GuestMemory where
  bytes : List UInt8
  fits : bytes.length < 2 ^ 63

namespace GuestMemory

/-- `data.len()`. -/
def len (m : GuestMemory) : UInt64 := UInt64.ofNat m.bytes.length

/-- `&data[start..stop]`: a range that ends before it starts panics, and one that ends behind the
data. -/
def slice (m : GuestMemory) (start stop : UInt64) : Option (List UInt8) :=
  if start ≤ stop ∧ stop ≤ m.len then
    some ((m.bytes.drop start.toNat).take (stop.toNat - start.toNat))
  else none

/-- The bytes from `start` on are written over. -/
def write (m : GuestMemory) (start : ℕ) (new : List UInt8) : GuestMemory where
  bytes := m.bytes.mapIdx fun i b => if start ≤ i then (new[i - start]?).getD b else b
  fits := by simpa using m.fits

end GuestMemory

/-- `HostState::input_json`, as bytes; nothing is empty. -/
def inputBytes (host : HostState) : List UInt8 := Utf8.encode (host.inputJson.getD "").toList

/-- `Caller<'_, HostState>`, with the memory that the module exports, if it exports one. -/
structure HostCaller where
  host : HostState
  memory : Option GuestMemory
  /-- No string has `2^63` bytes. -/
  inputFits : (inputBytes host).length < 2 ^ 63

namespace HostCaller

variable (c : HostCaller)

/-- `data_mut().log(..)`. -/
def log (level : LogLevel) (message : String) (now : ℕ) : HostCaller where
  host := c.host.log level message now
  memory := c.memory
  inputFits := by
    unfold HostState.log
    split
    · exact c.inputFits
    · exact c.inputFits

/-- The output is set. -/
def setOutput (output : String) : HostCaller where
  host := { c.host with outputJson := some output }
  memory := c.memory
  inputFits := c.inputFits

/-- The memory is written. -/
def withMemory (memory : Option GuestMemory) : HostCaller where
  host := c.host
  memory := memory
  inputFits := c.inputFits

@[simp] theorem host_withMemory (memory : Option GuestMemory) :
    (c.withMemory memory).host = c.host := rfl

@[simp] theorem memory_withMemory (memory : Option GuestMemory) :
    (c.withMemory memory).memory = memory := rfl

@[simp] theorem memory_log (level : LogLevel) (message : String) (now : ℕ) :
    (c.log level message now).memory = c.memory := rfl

@[simp] theorem memory_setOutput (output : String) : (c.setOutput output).memory = c.memory := rfl

theorem withMemory_self : c.withMemory c.memory = c := rfl

end HostCaller

/-- The level that a number stands for. -/
def LogLevel.ofCode (level : Int32) : LogLevel :=
  if level = 0 then .debug else if level = 1 then .info else if level = 2 then .warn else .error

/-- `host_log`.  Nothing stands for a panic. -/
def hostLog (c : HostCaller) (level ptr len : Int32) (now : ℕ) : Option HostCaller :=
  match c.memory with
  | none => some c
  | some memory =>
      let start := asUsize ptr
      let stop := start + asUsize len
      if stop ≤ memory.len then
        (memory.slice start stop).map fun bytes =>
          match Utf8.decode? bytes with
          | some message => c.log (.ofCode level) (String.ofList message) now
          | none => c
      else some c

/-- `host_random`: a byte is drawn for each place. -/
def hostRandom (c : HostCaller) (ptr len : Int32) (draw : ℕ → UInt8) : Option (Int32 × HostCaller) :=
  if !c.host.capabilities.randomAccess then some (-1, c)
  else
    match c.memory with
    | none => some (-1, c)
    | some memory =>
        let start := asUsize ptr
        let stop := start + asUsize len
        if stop ≤ memory.len then
          (memory.slice start stop).map fun bytes =>
            (0, c.withMemory (memory.write start.toNat ((List.range bytes.length).map draw)))
        else some (-1, c)

/-- `host_get_input`. -/
def hostGetInput (c : HostCaller) (ptr len : Int32) : Option (Int32 × HostCaller) :=
  let bytes := inputBytes c.host
  let toCopy := min (asUsize len) (UInt64.ofNat bytes.length)
  match c.memory with
  | none => some (-1, c)
  | some memory =>
      let start := asUsize ptr
      if start + toCopy ≤ memory.len then
        (memory.slice start (start + toCopy)).map fun _ =>
          (toCopy.toUInt32.toInt32,
            c.withMemory (memory.write start.toNat (bytes.take toCopy.toNat)))
      else some (-1, c)

/-- `host_set_output`. -/
def hostSetOutput (c : HostCaller) (ptr len : Int32) : Option HostCaller :=
  match c.memory with
  | none => some c
  | some memory =>
      let start := asUsize ptr
      let stop := start + asUsize len
      if stop ≤ memory.len then
        (memory.slice start stop).map fun bytes =>
          match Utf8.decode? bytes with
          | some output => c.setOutput (String.ofList output)
          | none => c
      else some c

/-- The functions that take a pointer and a length. -/
inductive HostCall
  | log (level : Int32)
  | random
  | getInput
  | setOutput
  deriving DecidableEq

namespace HostCall

/-- A call, without the number that it returns. -/
def run (call : HostCall) (c : HostCaller) (ptr len : Int32) (now : ℕ) (draw : ℕ → UInt8) :
    Option HostCaller :=
  match call with
  | log level => hostLog c level ptr len now
  | random => (hostRandom c ptr len draw).map Prod.snd
  | getInput => (hostGetInput c ptr len).map Prod.snd
  | setOutput => hostSetOutput c ptr len

end HostCall

/-! ## Ranges -/

/-- The word stands for the number, which may be negative. -/
def Signed (w : UInt64) (x : ℤ) : Prop := (w.toNat : ℤ) = x % 2 ^ 64

theorem signed_asUsize (x : Int32) : Signed (asUsize x) x.toInt := by
  have hcast : ((2 : ℤ) ^ 64) = ((2 ^ 64 : ℕ) : ℤ) := by norm_num
  have hlt : (x.toInt64.toBitVec.toNat : ℤ) < ((2 ^ 64 : ℕ) : ℤ) := by
    exact_mod_cast x.toInt64.toBitVec.isLt
  unfold Signed asUsize
  rw [← Int32.toInt_toInt64 x, Int64.toInt, BitVec.toInt_eq_toNat_bmod, hcast, Int.bmod_emod]
  exact (Int.emod_eq_of_lt (Int.natCast_nonneg _) hlt).symm

theorem signed_of_toNat {w : UInt64} {k : ℕ} (h : w.toNat = k) : Signed w k := by
  have hlt : w.toNat < 2 ^ 64 := w.toNat_lt
  unfold Signed
  omega

/-- A range lies within a memory. -/
def FitsIn (size : ℕ) (ptr len : ℤ) : Prop := 0 ≤ ptr ∧ 0 ≤ len ∧ ptr + len ≤ size

/-- One of two numbers is negative, and the sum looks like an end within the memory. -/
def WrapsIn (size : ℕ) (ptr len : ℤ) : Prop :=
  (ptr < 0 ∨ len < 0) ∧ 0 ≤ ptr + len ∧ ptr + len ≤ size

instance (size : ℕ) (ptr len : ℤ) : Decidable (FitsIn size ptr len) :=
  inferInstanceAs (Decidable (_ ∧ _ ∧ _))

instance (size : ℕ) (ptr len : ℤ) : Decidable (WrapsIn size ptr len) :=
  inferInstanceAs (Decidable (_ ∧ _ ∧ _))

namespace GuestMemory

variable (m : GuestMemory) {start count : UInt64} {p l : ℤ}

@[simp] theorem length_write (start : ℕ) (new : List UInt8) :
    (m.write start new).bytes.length = m.bytes.length := by
  simp [write]

theorem getElem?_write (start i : ℕ) (new : List UInt8) :
    (m.write start new).bytes[i]? =
      m.bytes[i]?.map fun b => if start ≤ i then (new[i - start]?).getD b else b := by
  simp [write]

theorem getElem?_write_of_outside {start i : ℕ} {new : List UInt8}
    (h : i < start ∨ start + new.length ≤ i) : (m.write start new).bytes[i]? = m.bytes[i]? := by
  rw [getElem?_write]
  by_cases hi : start ≤ i
  · have hnone : new[i - start]? = none := by
      apply List.getElem?_eq_none
      omega
    simp [hi, hnone]
  · simp [hi]

theorem write_nil (start : ℕ) : m.write start [] = m := by
  have hbytes : (m.write start []).bytes = m.bytes := by
    apply List.ext_getElem?
    intro i
    simp [getElem?_write]
  cases m
  exact GuestMemory.mk.injEq .. ▸ hbytes

theorem toNat_len : m.len.toNat = m.bytes.length := by
  have h := m.fits
  unfold len
  rw [UInt64.toNat_ofNat']
  omega

/-- The end is compared with the size: the sum of the two numbers is. -/
theorem stop_le_iff (hstart : Signed start p) (hcount : Signed count l)
    (hp : -2 ^ 31 ≤ p ∧ p < 2 ^ 31) (hl : -2 ^ 31 ≤ l ∧ l < 2 ^ 63) :
    start + count ≤ m.len ↔ 0 ≤ p + l ∧ p + l ≤ m.bytes.length := by
  have hfits := m.fits
  unfold Signed at hstart hcount
  rw [UInt64.le_iff_toNat_le, toNat_len, UInt64.toNat_add]
  omega

/-- A range that passes the comparison is read if it starts before it ends. -/
theorem slice_of_fits (hstart : Signed start p) (hcount : Signed count l)
    (hp : p < 2 ^ 31) (hl : l < 2 ^ 63) (h : FitsIn m.bytes.length p l) :
    m.slice start (start + count) = some ((m.bytes.drop p.toNat).take l.toNat) := by
  have hfits := m.fits
  obtain ⟨hp0, hl0, hsum⟩ := h
  unfold Signed at hstart hcount
  have hs : start.toNat = p.toNat := by omega
  have he : (start + count).toNat = p.toNat + l.toNat := by
    rw [UInt64.toNat_add]
    omega
  have hrange : start ≤ start + count ∧ start + count ≤ m.len := by
    rw [UInt64.le_iff_toNat_le, UInt64.le_iff_toNat_le, toNat_len, he, hs]
    omega
  have hlen : p.toNat + l.toNat - p.toNat = l.toNat := by omega
  rw [slice, if_pos hrange, he, hs, hlen]

theorem slice_of_wraps (hstart : Signed start p) (hcount : Signed count l)
    (hp : -2 ^ 31 ≤ p ∧ p < 2 ^ 31) (hl : -2 ^ 31 ≤ l ∧ l < 2 ^ 63)
    (h : WrapsIn m.bytes.length p l) : m.slice start (start + count) = none := by
  have hfits := m.fits
  obtain ⟨hneg, hsum, hsize⟩ := h
  unfold Signed at hstart hcount
  rw [slice, if_neg]
  rintro ⟨hle, -⟩
  rw [UInt64.le_iff_toNat_le, UInt64.toNat_add] at hle
  omega

/-- **An access behind the comparison**: it takes place, panics, or is left out. -/
theorem guarded_eq {β : Type*} (hstart : Signed start p) (hcount : Signed count l)
    (hp : -2 ^ 31 ≤ p ∧ p < 2 ^ 31) (hl : -2 ^ 31 ≤ l ∧ l < 2 ^ 63) (f : List UInt8 → β) (b : β) :
    (if start + count ≤ m.len then (m.slice start (start + count)).map f else some b) =
      if FitsIn m.bytes.length p l then some (f ((m.bytes.drop p.toNat).take l.toNat))
      else if WrapsIn m.bytes.length p l then none
      else some b := by
  by_cases hfits : FitsIn m.bytes.length p l
  · have hsum : 0 ≤ p + l ∧ p + l ≤ m.bytes.length := ⟨by unfold FitsIn at hfits; omega, hfits.2.2⟩
    rw [if_pos ((m.stop_le_iff hstart hcount hp hl).2 hsum), if_pos hfits,
      m.slice_of_fits hstart hcount hp.2 hl.2 hfits]
    rfl
  rw [if_neg hfits]
  by_cases hwraps : WrapsIn m.bytes.length p l
  · rw [if_pos ((m.stop_le_iff hstart hcount hp hl).2 hwraps.2), if_pos hwraps,
      m.slice_of_wraps hstart hcount hp hl hwraps]
    rfl
  · have hsum : ¬ (0 ≤ p + l ∧ p + l ≤ m.bytes.length) := by
      unfold FitsIn at hfits
      unfold WrapsIn at hwraps
      omega
    rw [if_neg (mt (m.stop_le_iff hstart hcount hp hl).1 hsum), if_neg hwraps]

end GuestMemory

theorem WrapsIn.not_fits {size : ℕ} {p l : ℤ} (h : WrapsIn size p l) : ¬ FitsIn size p l := by
  unfold FitsIn
  unfold WrapsIn at h
  omega

theorem asUsize_bounds (x : Int32) : -2 ^ 31 ≤ x.toInt ∧ x.toInt < 2 ^ 31 := ⟨x.le_toInt, x.toInt_lt⟩

/-! ## What a call may do -/

namespace HostCaller

/-- The number of bytes of the memory. -/
def size (c : HostCaller) : Option ℕ := c.memory.map fun m => m.bytes.length

/-- The call has touched nothing but the range in the memory, and the logs and the output of the
host. -/
structure Within (before after : HostCaller) (ptr len : Int32) : Prop where
  host : after.host = { before.host with
    logs := after.host.logs, outputJson := after.host.outputJson }
  size : after.size = before.size
  outside : ∀ m m', before.memory = some m → after.memory = some m' →
    ∀ i : ℕ, (i : ℤ) < ptr.toInt ∨ ptr.toInt + len.toInt ≤ i → m'.bytes[i]? = m.bytes[i]?

end HostCaller

namespace HostCall

/-- The range lies within the memory, if there is one. -/
def Fits (size : Option ℕ) (ptr len : Int32) : Prop :=
  ∃ n, size = some n ∧ FitsIn n ptr.toInt len.toInt

/-- **What is promised of a call**: whatever the memory holds, it does not panic, stays within a
range that fits, and leaves everything as it is where the range does not fit. -/
def Safe (call : HostCall) (c : HostCaller) (ptr len : Int32) : Prop :=
  ∀ memory, (c.withMemory memory).size = c.size → ∀ now draw,
    ∃ after, call.run (c.withMemory memory) ptr len now draw = some after ∧
      (Fits c.size ptr len → (c.withMemory memory).Within after ptr len) ∧
      (¬ Fits c.size ptr len → after = c.withMemory memory)

/-- So many bytes of the input are copied. -/
def copied (c : HostCaller) (len : Int32) : ℕ :=
  if len.toInt < 0 then (inputBytes c.host).length
  else min len.toInt.toNat (inputBytes c.host).length

/-- The numbers of a call to a memory of this size do no harm. -/
def Harmless (call : HostCall) (c : HostCaller) (ptr len : Int32) (size : ℕ) : Prop :=
  match call with
  | log _ | setOutput => ¬ WrapsIn size ptr.toInt len.toInt
  | random =>
      c.host.capabilities.randomAccess = true → ¬ WrapsIn size ptr.toInt len.toInt
  | getInput =>
      FitsIn size ptr.toInt len.toInt ∨ copied c len = 0 ∨ ptr.toInt + copied c len < 0 ∨
        size < ptr.toInt + copied c len

section Calls

variable {c : HostCaller} {ptr len : Int32} {m : GuestMemory} {now : ℕ} {draw : ℕ → UInt8}

private theorem len_bounds (len : Int32) : -2 ^ 31 ≤ len.toInt ∧ len.toInt < 2 ^ 63 := by
  have h := asUsize_bounds len
  omega

/-- A call that reads a range and changes the logs or the output by what it reads. -/
theorem hostLog_eq (level : Int32) (h : c.memory = some m) :
    hostLog c level ptr len now =
      if FitsIn m.bytes.length ptr.toInt len.toInt then
        some (match Utf8.decode? ((m.bytes.drop ptr.toInt.toNat).take len.toInt.toNat) with
          | some message => c.log (.ofCode level) (String.ofList message) now
          | none => c)
      else if WrapsIn m.bytes.length ptr.toInt len.toInt then none
      else some c := by
  unfold hostLog
  rw [h]
  exact m.guarded_eq (signed_asUsize ptr) (signed_asUsize len) (asUsize_bounds ptr)
    (len_bounds len) _ c

theorem hostSetOutput_eq (h : c.memory = some m) :
    hostSetOutput c ptr len =
      if FitsIn m.bytes.length ptr.toInt len.toInt then
        some (match Utf8.decode? ((m.bytes.drop ptr.toInt.toNat).take len.toInt.toNat) with
          | some output => c.setOutput (String.ofList output)
          | none => c)
      else if WrapsIn m.bytes.length ptr.toInt len.toInt then none
      else some c := by
  unfold hostSetOutput
  rw [h]
  exact m.guarded_eq (signed_asUsize ptr) (signed_asUsize len) (asUsize_bounds ptr)
    (len_bounds len) _ c

theorem hostRandom_eq (ptr len : Int32) (draw : ℕ → UInt8)
    (hallowed : c.host.capabilities.randomAccess = true) (h : c.memory = some m) :
    (hostRandom c ptr len draw).map Prod.snd =
      if FitsIn m.bytes.length ptr.toInt len.toInt then
        some (c.withMemory (some (m.write (asUsize ptr).toNat
          ((List.range ((m.bytes.drop ptr.toInt.toNat).take len.toInt.toNat).length).map draw))))
      else if WrapsIn m.bytes.length ptr.toInt len.toInt then none
      else some c := by
  unfold hostRandom
  rw [hallowed, h]
  dsimp only
  rw [Bool.not_true, if_neg Bool.false_ne_true, m.guarded_eq (signed_asUsize ptr) (signed_asUsize len)
    (asUsize_bounds ptr) (len_bounds len)]
  split
  · rfl
  · split <;> rfl

theorem toNat_toCopy (c : HostCaller) (len : Int32) :
    (min (asUsize len) (UInt64.ofNat (inputBytes c.host).length)).toNat = copied c len := by
  have hinput := c.inputFits
  have hlen := signed_asUsize len
  have hbounds := asUsize_bounds len
  have hn : (UInt64.ofNat (inputBytes c.host).length).toNat = (inputBytes c.host).length := by
    rw [UInt64.toNat_ofNat']
    omega
  unfold Signed at hlen
  unfold copied
  rw [UInt64.toNat_min]
  rw [hn]
  split <;> omega

theorem copied_lt (c : HostCaller) (len : Int32) : copied c len < 2 ^ 63 := by
  have hinput := c.inputFits
  unfold copied
  split <;> omega

theorem hostGetInput_eq (h : c.memory = some m) :
    (hostGetInput c ptr len).map Prod.snd =
      if FitsIn m.bytes.length ptr.toInt (copied c len) then
        some (c.withMemory (m.write (asUsize ptr).toNat
          ((inputBytes c.host).take (copied c len))))
      else if WrapsIn m.bytes.length ptr.toInt (copied c len) then none
      else some c := by
  have hlt := copied_lt c len
  have hcopied : -2 ^ 31 ≤ (copied c len : ℤ) ∧ (copied c len : ℤ) < 2 ^ 63 := by omega
  unfold hostGetInput
  dsimp only
  rw [h]
  dsimp only
  rw [m.guarded_eq (signed_asUsize ptr) (signed_of_toNat (toNat_toCopy c len))
    (asUsize_bounds ptr) hcopied, toNat_toCopy]
  split
  · rfl
  · split <;> rfl

end Calls

section Safety

variable {call : HostCall} {c : HostCaller} {ptr len : Int32} {m : GuestMemory} {size : ℕ}

theorem fits_some : Fits (some size) ptr len ↔ FitsIn size ptr.toInt len.toInt := by
  simp [Fits]

theorem size_withMemory (c : HostCaller) (m : GuestMemory) :
    (c.withMemory (some m)).size = some m.bytes.length := rfl

theorem within_of_memory {after : HostCaller} (hmemory : after.memory = c.memory)
    (hhost : after.host = { c.host with
      logs := after.host.logs, outputJson := after.host.outputJson }) :
    c.Within after ptr len := by
  refine ⟨hhost, by simp [HostCaller.size, hmemory], ?_⟩
  intro m m' hm hm' i _
  rw [hmemory, hm] at hm'
  rw [Option.some.inj hm']

theorem within_write {new : List UInt8} (hmemory : c.memory = some m) (hptr : 0 ≤ ptr.toInt)
    (hlen : (new.length : ℤ) ≤ len.toInt) :
    c.Within (c.withMemory (some (m.write (asUsize ptr).toNat new))) ptr len := by
  refine ⟨rfl, ?_, ?_⟩
  · rw [size_withMemory, m.length_write, HostCaller.size, hmemory]
    rfl
  · intro m₁ m₂ hm₁ hm₂ i hi
    rw [hmemory] at hm₁
    rw [← Option.some.inj hm₁, ← Option.some.inj hm₂]
    apply m.getElem?_write_of_outside
    have hstart := signed_asUsize ptr
    have hbounds := asUsize_bounds ptr
    unfold Signed at hstart
    omega

theorem safe_iff_of_guarded (hsize : c.size = some size)
    (hrun : ∀ m : GuestMemory, m.bytes.length = size → ∀ now draw, ∃ after,
      (FitsIn size ptr.toInt len.toInt → (c.withMemory (some m)).Within after ptr len) ∧
      call.run (c.withMemory (some m)) ptr len now draw =
        if FitsIn size ptr.toInt len.toInt then some after
        else if WrapsIn size ptr.toInt len.toInt then none
        else some (c.withMemory (some m))) :
    call.Safe c ptr len ↔ ¬ WrapsIn size ptr.toInt len.toInt := by
  obtain ⟨m, hm, hlength⟩ := Option.map_eq_some_iff.1 hsize
  constructor
  · intro hsafe hwraps
    obtain ⟨after, -, hpanic⟩ := hrun m hlength 0 fun _ => 0
    obtain ⟨after', hafter, -⟩ := hsafe (some m) (by rw [hsize, ← hlength]; rfl) 0 fun _ => 0
    rw [hpanic, if_neg hwraps.not_fits, if_pos hwraps] at hafter
    cases hafter
  · intro hwraps memory hmemory now draw
    rw [hsize] at hmemory
    obtain ⟨m', hm', hlength'⟩ := Option.map_eq_some_iff.1 hmemory
    obtain rfl : memory = some m' := hm'
    obtain ⟨after, hwithin, hcall⟩ := hrun m' hlength' now draw
    rw [hcall, if_neg hwraps, hsize, fits_some]
    by_cases hfits : FitsIn size ptr.toInt len.toInt
    · rw [if_pos hfits]
      exact ⟨after, rfl, hwithin, fun hnot => absurd hfits hnot⟩
    · rw [if_neg hfits]
      exact ⟨_, rfl, fun hfits' => absurd hfits' hfits, fun _ => rfl⟩

theorem safe_of_no_memory (hsize : c.size = none) : call.Safe c ptr len := by
  intro memory hmemory now draw
  rw [hsize] at hmemory
  obtain rfl : memory = none := Option.map_eq_none_iff.1 hmemory
  have hrun : call.run (c.withMemory none) ptr len now draw = some (c.withMemory none) := by
    cases call with
    | random =>
        unfold run hostRandom
        cases (c.withMemory none).host.capabilities.randomAccess <;> rfl
    | _ => rfl
  rw [hrun, hsize]
  exact ⟨_, rfl, fun ⟨n, hn, _⟩ => (nomatch hn), fun _ => rfl⟩

theorem safe_log_iff (level : Int32) (hsize : c.size = some size) :
    (log level).Safe c ptr len ↔ ¬ WrapsIn size ptr.toInt len.toInt := by
  apply safe_iff_of_guarded hsize
  rintro m rfl now draw
  refine ⟨_, fun _ => ?_, hostLog_eq (c := c.withMemory (some m)) level rfl⟩
  split
  · refine within_of_memory (HostCaller.memory_log ..) ?_
    unfold HostCaller.log HostState.log
    split <;> rfl
  · exact within_of_memory rfl rfl

theorem safe_setOutput_iff (hsize : c.size = some size) :
    setOutput.Safe c ptr len ↔ ¬ WrapsIn size ptr.toInt len.toInt := by
  apply safe_iff_of_guarded hsize
  rintro m rfl now draw
  refine ⟨_, fun _ => ?_, hostSetOutput_eq (c := c.withMemory (some m)) rfl⟩
  split
  · exact within_of_memory rfl rfl
  · exact within_of_memory rfl rfl

theorem safe_random_iff (hsize : c.size = some size) :
    random.Safe c ptr len ↔
      (c.host.capabilities.randomAccess = true → ¬ WrapsIn size ptr.toInt len.toInt) := by
  cases hallowed : c.host.capabilities.randomAccess with
  | false =>
      refine iff_of_true ?_ (fun h => nomatch h)
      intro memory _ now draw
      refine ⟨c.withMemory memory, ?_, fun _ => within_of_memory rfl rfl, fun _ => rfl⟩
      simp [run, hostRandom, hallowed]
  | true =>
      rw [imp_iff_right rfl]
      apply safe_iff_of_guarded hsize
      rintro m rfl now draw
      have hcall := hostRandom_eq (c := c.withMemory (some m)) (m := m) ptr len draw hallowed rfl
      set new := (List.range ((m.bytes.drop ptr.toInt.toNat).take len.toInt.toNat).length).map draw
      refine ⟨c.withMemory (some (m.write (asUsize ptr).toNat new)), fun hfits => ?_, ?_⟩
      · obtain ⟨hptr, hlen, -⟩ := hfits
        apply within_write rfl hptr
        rw [List.length_map, List.length_range, List.length_take]
        omega
      · exact hcall

theorem exists_changed {start : ℕ} {new : List UInt8} (hnew : new ≠ []) (hstart : start < size)
    (hsize : size < 2 ^ 63) : ∃ m : GuestMemory, m.bytes.length = size ∧ m.write start new ≠ m := by
  obtain ⟨b, new, rfl⟩ := List.exists_cons_of_ne_nil hnew
  refine ⟨⟨List.replicate size (b + 1), by simpa using hsize⟩, by simp, fun heq => ?_⟩
  have hbyte := GuestMemory.getElem?_write ⟨List.replicate size (b + 1), by simpa using hsize⟩
    start start (b :: new)
  rw [heq] at hbyte
  simp [hstart] at hbyte

/-- The input is copied as far as the length goes, and the comparison is about what is copied. -/
theorem safe_getInput_iff (hsize : c.size = some size) :
    getInput.Safe c ptr len ↔
      (FitsIn size ptr.toInt len.toInt ∨ copied c len = 0 ∨ ptr.toInt + copied c len < 0 ∨
        size < ptr.toInt + copied c len) := by
  obtain ⟨m, hm, hlength⟩ := Option.map_eq_some_iff.1 hsize
  have hle : copied c len ≤ (inputBytes c.host).length := by
    unfold copied
    split <;> omega
  have hnew : ((inputBytes c.host).take (copied c len)).length = copied c len := by
    rw [List.length_take]
    omega
  have hrun : ∀ m : GuestMemory, m.bytes.length = size → ∀ now draw,
      getInput.run (c.withMemory (some m)) ptr len now draw =
        if FitsIn size ptr.toInt (copied c len) then
          some (c.withMemory (some (m.write (asUsize ptr).toNat
            ((inputBytes c.host).take (copied c len)))))
        else if WrapsIn size ptr.toInt (copied c len) then none
        else some (c.withMemory (some m)) := by
    rintro m rfl now draw
    exact hostGetInput_eq (c := c.withMemory (some m)) rfl
  constructor
  · intro hsafe
    by_contra hnot
    push Not at hnot
    obtain ⟨hfits, hcopied, hsum, hle⟩ := hnot
    by_cases hptr : 0 ≤ ptr.toInt
    · -- the copied part fits although the range does not, and some memory is changed by it
      have hpart : FitsIn size ptr.toInt (copied c len) := ⟨hptr, by omega, hle⟩
      have hstart := signed_asUsize ptr
      have hbounds := asUsize_bounds ptr
      unfold Signed at hstart
      have hsome : (inputBytes c.host).take (copied c len) ≠ [] := by
        rw [← List.length_pos_iff, hnew]
        omega
      have hinside : (asUsize ptr).toNat < size := by omega
      obtain ⟨m', hlength', hchanged⟩ := exists_changed hsome hinside (hlength ▸ m.fits)
      obtain ⟨after, hafter, -, hsame⟩ :=
        hsafe (some m') (by rw [hsize, ← hlength']; rfl) 0 fun _ => 0
      rw [hsize, fits_some] at hsame
      rw [hrun m' hlength', if_pos hpart, hsame hfits] at hafter
      have hmemory := congrArg (Option.map HostCaller.memory) hafter
      exact hchanged (by simpa using hmemory)
    · have hwraps : WrapsIn size ptr.toInt (copied c len) := ⟨.inl (by omega), hsum, hle⟩
      obtain ⟨after, hafter, -⟩ := hsafe (some m) (by rw [hsize, ← hlength]; rfl) 0 fun _ => 0
      rw [hrun m hlength, if_neg hwraps.not_fits, if_pos hwraps] at hafter
      cases hafter
  · intro hcond memory hmemory now draw
    rw [hsize] at hmemory
    obtain ⟨m', hm', hlength'⟩ := Option.map_eq_some_iff.1 hmemory
    obtain rfl : memory = some m' := hm'
    rw [hrun m' hlength', hsize, fits_some]
    by_cases hpart : FitsIn size ptr.toInt (copied c len)
    · rw [if_pos hpart]
      refine ⟨_, rfl, fun hfits => within_write rfl hfits.1 ?_, fun hnot => ?_⟩
      · rw [hnew]
        unfold copied
        unfold FitsIn at hfits
        split
        · omega
        · omega
      · have hzero : copied c len = 0 := by
          have hrest := hcond.resolve_left hnot
          unfold FitsIn at hpart
          omega
        rw [hzero, List.take_zero, m'.write_nil]
    · have hwraps : ¬ WrapsIn size ptr.toInt (copied c len) := by
        rintro ⟨hneg, hsum, hend⟩
        unfold FitsIn at hcond hpart
        omega
      rw [if_neg hpart, if_neg hwraps]
      exact ⟨_, rfl, fun _ => within_of_memory rfl rfl, fun _ => rfl⟩

/-- **When a call is safe.** -/
theorem safe_iff (call : HostCall) (c : HostCaller) (ptr len : Int32) :
    call.Safe c ptr len ↔ ∀ size, c.size = some size → call.Harmless c ptr len size := by
  cases hsize : c.size with
  | none => exact iff_of_true (safe_of_no_memory hsize) fun _ h => nomatch h
  | some size =>
      have hall : (∀ size', some size = some size' → call.Harmless c ptr len size') ↔
          call.Harmless c ptr len size := by simp
      rw [hall]
      cases call with
      | log level => exact safe_log_iff level hsize
      | random => exact safe_random_iff hsize
      | getInput => exact safe_getInput_iff hsize
      | setOutput => exact safe_setOutput_iff hsize

/-- A module with eight bytes of memory, and an input of four. -/
private def small : HostCaller where
  host := { HostState.new .minimal with inputJson := some "null" }
  memory := some ⟨List.replicate 8 0, by decide⟩
  inputFits := by decide

/-- A pointer below zero and a length that leads back into the memory: each of the functions
panics. -/
theorem panics_below_zero :
    (∀ call ∈ [log 1, random, getInput, setOutput], call.run small (-2) 4 0 (fun _ => 7) = none) ∧
      ∀ call ∈ [log 1, random, getInput, setOutput], ¬ call.Safe small (-2) 4 := by
  have hpanic : ∀ call ∈ [log 1, random, getInput, setOutput],
      call.run small (-2) 4 0 (fun _ => 7) = none := by
    intro call hcall
    simp only [List.mem_cons, List.not_mem_nil, or_false] at hcall
    obtain rfl | rfl | rfl | rfl := hcall <;> rfl
  refine ⟨hpanic, fun call hcall hsafe => ?_⟩
  obtain ⟨after, hafter, -⟩ := hsafe small.memory rfl 0 fun _ => 7
  rw [small.withMemory_self, hpanic call hcall] at hafter
  cases hafter

end Safety

end HostCall

end PeerClaw
