import PeerClaw.Lib.Machine
import PeerClaw.Wasm.Executor

/-!
# Which modules are run

The executor looks a string up in the cache, reads the file that the first 16 characters of the
string name, and compares the capabilities if the string is the hash of a registered tool.
Nothing compares the bytes that are read with the hash, and what is not registered is run.

* `enforced_iff` — in every run, only registered tools are run, from their own bytes and with the
  capabilities that they require, exactly when each call that finds something to run names a
  registered tool, whose file still has its bytes.
* `vouched_of_careful` — the files have their bytes as long as they are written completely and no
  tool is registered whose file is that of another one.
* `shortened_hash_runs` — a module is run under the first 16 characters of its hash.
-/

namespace PeerClaw
namespace WasmExecutor

open Lib Lib.Machine

variable {S : WasmSandbox} (blake3 : List UInt8 → Blake3Hash)

/-! ## What a call finds -/

/-- The bytes in the file that a string names. -/
def stored (w : WasmExecutor S) (hash : String) : Option (List UInt8) :=
  (toolPath w.registry.toolsDir hash).bind fun path =>
    match w.disk.lookup path with
    | some (.file bytes) => some bytes
    | _ => none

/-- The string is the hash of a tool that this process has registered. -/
def Registered (w : WasmExecutor S) (hash : String) : Prop :=
  ∃ info, w.registry.tools.lookup hash = some info

section Lookup

variable {w : WasmExecutor S} {hash : String} {readable : Bool} {c : CompiledModule S}

theorem compile_eq_ok_iff {bytes : List UInt8} :
    compile bytes = .ok c ↔ c.bytes = bytes := by
  unfold compile
  split
  next message herror =>
    constructor
    · intro h
      cases h
    · rintro rfl
      rw [c.compiled] at herror
      cases herror
  next module hok =>
    constructor
    · intro h
      cases h
      rfl
    · rintro rfl
      obtain ⟨bytes, module', hmodule⟩ := c
      obtain rfl : module' = module := Except.ok.inj (hmodule.symm.trans hok)
      rfl

theorem load_eq_ok_iff :
    w.load hash readable = .ok c ↔ w.stored hash = some c.bytes ∧ readable = true := by
  unfold load stored
  cases toolPath w.registry.toolsDir hash with
  | none => simp
  | some path =>
      cases hentry : w.disk.lookup path with
      | none => simp [hentry]
      | some entry =>
          cases entry with
          | directory => simp [hentry]
          | file bytes =>
              simp only [Option.bind_some, hentry, Option.some.injEq, eq_comm (a := bytes),
                ← compile_eq_ok_iff (c := c)]
              cases readable with
              | false => simp
              | true =>
                  simp only [if_true, and_true]
                  cases compile bytes <;> simp

theorem getCompiled_eq_ok_iff :
    (w.getCompiled hash readable).1 = .ok c ↔ w.registry.compiled.lookup hash = some c ∨
      w.registry.compiled.lookup hash = none ∧ w.stored hash = some c.bytes ∧ readable = true := by
  rw [← load_eq_ok_iff]
  unfold getCompiled
  cases w.registry.compiled.lookup hash with
  | some cached => simp
  | none => cases w.load hash readable <;> simp

end Lookup

/-! ## What is run, and when it should be -/

/-- If a call runs a module, its string is the hash of a registered tool and of the bytes that
the module was compiled from, and the capabilities are those that the tool requires. -/
def Enforced (w : WasmExecutor S) : Event → Prop
  | .execute r => ∀ run, (w.execute r).1 = .ok run →
      ∃ info, w.registry.tools.lookup r.toolHash = some info ∧
        toolHash blake3 run.compiled.bytes = r.toolHash ∧
        run.capabilities.satisfies info.requiredCapabilities = true
  | _ => True

/-- If a module is cached under the string of a call, or the file that it names can be read and
compiled, then the string is the hash of a registered tool, and what is in the file has that
hash. -/
def Vouched (w : WasmExecutor S) : Event → Prop
  | .execute r =>
      (w.registry.compiled.lookup r.toolHash ≠ none → w.Registered r.toolHash) ∧
      (w.registry.compiled.lookup r.toolHash = none → r.readable = true →
        ∀ bytes module, w.stored r.toolHash = some bytes → S.compile bytes = .ok module →
          w.Registered r.toolHash ∧ toolHash blake3 bytes = r.toolHash)
  | _ => True

/-- No registered tool requires anything, and what is cached has the hash it is cached under. -/
structure Good (w : WasmExecutor S) : Prop where
  required : ∀ hash info, w.registry.tools.lookup hash = some info →
    info.requiredCapabilities = .default
  cached : ∀ hash c, w.registry.compiled.lookup hash = some c → toolHash blake3 c.bytes = hash

section Steps

variable {blake3} {w : WasmExecutor S} {r : Request}

theorem getCompiled_snd (w : WasmExecutor S) (hash : String) (readable : Bool) :
    ∃ compiled, (w.getCompiled hash readable).2 =
      { w with registry := { w.registry with compiled := compiled } } := by
  unfold getCompiled
  cases w.registry.compiled.lookup hash with
  | some cached => exact ⟨w.registry.compiled, rfl⟩
  | none =>
      cases w.load hash readable with
      | ok compiled => exact ⟨w.registry.compiled.insert hash compiled, rfl⟩
      | err e => exact ⟨w.registry.compiled, rfl⟩
      | panic => exact ⟨w.registry.compiled, rfl⟩

/-- What is in the cache afterwards was there, or has been compiled now. -/
theorem lookup_getCompiled {hash key : String} {readable : Bool} {c : CompiledModule S}
    (h : (w.getCompiled hash readable).2.registry.compiled.lookup key = some c) :
    w.registry.compiled.lookup key = some c ∨
      key = hash ∧ (w.getCompiled hash readable).1 = .ok c := by
  unfold getCompiled at h ⊢
  cases hcached : w.registry.compiled.lookup hash with
  | some cached =>
      rw [hcached] at h
      exact .inl h
  | none =>
      rw [hcached] at h
      cases hload : w.load hash readable with
      | err e =>
          rw [hload] at h
          exact .inl h
      | panic =>
          rw [hload] at h
          exact .inl h
      | ok compiled =>
          rw [hload] at h
          have hnew : (w.registry.compiled.insert hash compiled).lookup key = some c := h
          rw [Finmap.lookup_insert_eq] at hnew
          by_cases hkey : key = hash
          · rw [if_pos hkey] at hnew
            exact .inr ⟨hkey, congrArg Outcome.ok (Option.some.inj hnew)⟩
          · rw [if_neg hkey] at hnew
            exact .inl hnew

theorem execute_snd : (w.execute r).2 = (w.getCompiled r.toolHash r.readable).2 := by
  unfold execute
  split
  next hget => rw [hget]
  next hget => rw [hget]
  next hget =>
      rw [hget]
      dsimp only
      split
      · rfl
      · split <;> rfl

/-- As no tool requires anything, a call runs the module that it gets. -/
theorem execute_eq_ok_iff (h : Good blake3 w) {run : Execution S} :
    (w.execute r).1 = .ok run ↔ ∃ c, (w.getCompiled r.toolHash r.readable).1 = .ok c ∧
      run = ⟨c, r.function, r.params, r.capabilities⟩ := by
  obtain ⟨compiled, hsnd⟩ := w.getCompiled_snd r.toolHash r.readable
  unfold execute
  split
  next e w' hget => simp [hget]
  next w' hget => simp [hget]
  next c w' hget =>
      rw [hget] at hsnd
      dsimp only at hsnd
      subst hsnd
      have hrun : (∃ c', (w.getCompiled r.toolHash r.readable).1 = .ok c' ∧
          run = ⟨c', r.function, r.params, r.capabilities⟩) ↔
          (⟨c, r.function, r.params, r.capabilities⟩ : Execution S) = run := by
        rw [hget]
        constructor
        · rintro ⟨c', hc', rfl⟩
          rw [Outcome.ok.inj hc']
        · rintro rfl
          exact ⟨c, rfl, rfl⟩
      rw [hrun]
      dsimp only
      split
      next => exact ⟨Outcome.ok.inj, congrArg Outcome.ok⟩
      next info hinfo =>
          rw [h.required _ _ hinfo, HostCapabilities.satisfies_default, if_pos rfl]
          exact ⟨Outcome.ok.inj, congrArg Outcome.ok⟩

/-- From a good state, a call runs only what it should exactly if its string is vouched for. -/
theorem enforced_iff_vouched (h : Good blake3 w) (e : Event) :
    Enforced blake3 w e ↔ Vouched blake3 w e := by
  cases e with
  | registerTool name bytes written => exact Iff.rfl
  | restart => exact Iff.rfl
  | execute r =>
      constructor
      · intro henforced
        have hruns : ∀ c, (w.getCompiled r.toolHash r.readable).1 = .ok c →
            w.Registered r.toolHash ∧ toolHash blake3 c.bytes = r.toolHash := by
          intro c hc
          obtain ⟨info, hinfo, hhash, -⟩ :=
            henforced _ ((execute_eq_ok_iff h).2 ⟨c, hc, rfl⟩)
          exact ⟨⟨info, hinfo⟩, hhash⟩
        refine ⟨fun hcached => ?_, fun hnone hreadable bytes module hstored hcompile => ?_⟩
        · obtain ⟨c, hc⟩ := Option.ne_none_iff_exists'.1 hcached
          exact (hruns c (getCompiled_eq_ok_iff.2 (.inl hc))).1
        · exact hruns ⟨bytes, module, hcompile⟩
            (getCompiled_eq_ok_iff.2 (.inr ⟨hnone, hstored, hreadable⟩))
      · intro hvouched run hrun
        obtain ⟨c, hc, rfl⟩ := (execute_eq_ok_iff h).1 hrun
        have hboth : w.Registered r.toolHash ∧ toolHash blake3 c.bytes = r.toolHash := by
          rcases getCompiled_eq_ok_iff.1 hc with hcached | ⟨hnone, hstored, hreadable⟩
          · exact ⟨hvouched.1 (by rw [hcached]; simp), h.cached _ _ hcached⟩
          · exact hvouched.2 hnone hreadable c.bytes c.module hstored c.compiled
        obtain ⟨⟨info, hinfo⟩, hhash⟩ := hboth
        refine ⟨info, hinfo, hhash, ?_⟩
        rw [h.required _ _ hinfo]
        exact HostCapabilities.satisfies_default _

/-- A registration leaves everything as it was, or it writes a file, and knows of the tool if all
of it has been written. -/
theorem registerTool_cases (name : String) (bytes : List UInt8) (written : Option ℕ) :
    (w.registerTool blake3 name bytes written).2 = w ∨
      ∃ path k, toolPath w.registry.toolsDir (toolHash blake3 bytes) = some path ∧
        written = some k ∧ (w.registerTool blake3 name bytes written).2 =
          { disk := w.disk.insert path (.file (bytes.take k))
            registry := { w.registry with
              tools := if bytes.length ≤ k then
                  w.registry.tools.insert (toolHash blake3 bytes) (infoOf blake3 name bytes)
                else w.registry.tools } } := by
  unfold registerTool
  dsimp only
  cases hpath : toolPath w.registry.toolsDir (toolHash blake3 bytes) with
  | none => exact .inl rfl
  | some path =>
      dsimp only
      unfold write
      split
      next disk hwrite =>
          split at hwrite
          next => exact .inl (by rw [← (Prod.mk.inj hwrite).1])
          next => exact .inl (by rw [← (Prod.mk.inj hwrite).1])
          next k _ =>
              obtain ⟨rfl, hk⟩ := Prod.mk.inj hwrite
              exact .inr ⟨path, k, rfl, rfl, by rw [if_neg (of_decide_eq_false hk)]⟩
      next disk hwrite =>
          split at hwrite
          next => exact absurd (Prod.mk.inj hwrite).2 (by decide)
          next => exact absurd (Prod.mk.inj hwrite).2 (by decide)
          next k _ =>
              obtain ⟨rfl, hk⟩ := Prod.mk.inj hwrite
              exact .inr ⟨path, k, rfl, rfl, by rw [if_pos (of_decide_eq_true hk)]⟩

/-- Every registered tool requires nothing, also after a registration. -/
theorem good_registerTool (h : Good blake3 w) (name : String) (bytes : List UInt8)
    (written : Option ℕ) : Good blake3 (w.registerTool blake3 name bytes written).2 := by
  rcases @registerTool_cases S blake3 w name bytes written with hsame | ⟨path, k, -, -, hnew⟩
  · rw [hsame]
    exact h
  · rw [hnew]
    refine ⟨fun hash info hinfo => ?_, h.cached⟩
    dsimp only at hinfo
    split at hinfo
    · rw [Finmap.lookup_insert_eq] at hinfo
      split at hinfo
      · rw [← Option.some.inj hinfo]
        rfl
      · exact h.required hash info hinfo
    · exact h.required hash info hinfo

/-- A step that runs only what it should leaves nothing in the cache under a wrong name. -/
theorem good_step (h : Good blake3 w) (e : Event) (henforced : Enforced blake3 w e) :
    Good blake3 (step blake3 w e) := by
  cases e with
  | registerTool name bytes written => exact good_registerTool h name bytes written
  | restart => exact ⟨fun _ _ hnone => (by cases hnone), fun _ _ hnone => (by cases hnone)⟩
  | execute r =>
      show Good blake3 (w.execute r).2
      rw [execute_snd]
      refine ⟨fun hash info hinfo => ?_, fun hash c hc => ?_⟩
      · obtain ⟨compiled, hsnd⟩ := w.getCompiled_snd r.toolHash r.readable
        rw [hsnd] at hinfo
        exact h.required hash info hinfo
      · rcases lookup_getCompiled hc with hold | ⟨rfl, hnow⟩
        · exact h.cached hash c hold
        · obtain ⟨info, -, hhash, -⟩ := henforced _ ((execute_eq_ok_iff h).2 ⟨c, hnow, rfl⟩)
          exact hhash

end Steps

/-- **What is run is enforced** as long as what is asked for is vouched for. -/
theorem enforced_iff (S : WasmSandbox) (blake3 : List UInt8 → Blake3Hash) (toolsDir : Path)
    (disk : Disk) (es : List Event) :
    Along (step blake3) (Enforced blake3) (.new S toolsDir disk) es ↔
      Along (step blake3) (Vouched blake3) (.new S toolsDir disk) es :=
  along_iff_of_kept (fun _ e h henforced => good_step h e henforced)
    (fun _ e h => enforced_iff_vouched h e)
    ⟨fun _ _ hnone => (by cases hnone), fun _ _ hnone => (by cases hnone)⟩

/-! ## Tools with files of their own -/

/-- A tool is written completely, to a file that no other registered tool has, and only registered
tools are called. -/
def Careful (w : WasmExecutor S) : Event → Prop
  | .registerTool _ bytes written =>
      (∃ k, written = some k ∧ bytes.length ≤ k) ∧
      ∀ hash, w.Registered hash → toolPath w.registry.toolsDir hash =
        toolPath w.registry.toolsDir (toolHash blake3 bytes) → hash = toolHash blake3 bytes
  | .execute r => w.Registered r.toolHash
  | .restart => True

/-- The file of a registered tool has its bytes. -/
def Intact (w : WasmExecutor S) : Prop :=
  ∀ hash bytes, w.Registered hash → w.stored hash = some bytes → toolHash blake3 bytes = hash

section Careful

variable {blake3} {w : WasmExecutor S}

/-- A tool that is written completely to a file of its own leaves the others intact. -/
theorem intact_registerTool (h : Intact blake3 w) {name : String} {bytes : List UInt8}
    {written : Option ℕ} (hcareful : Careful blake3 w (.registerTool name bytes written)) :
    Intact blake3 (w.registerTool blake3 name bytes written).2 := by
  obtain ⟨⟨k, rfl, hk⟩, hown⟩ := hcareful
  rcases @registerTool_cases S blake3 w name bytes (some k) with
    hsame | ⟨path, k', hpath, hk', hnew⟩
  · rw [hsame]
    exact h
  · obtain rfl := Option.some.inj hk'
    rw [hnew, if_pos hk, List.take_of_length_le hk]
    rintro hash bytes' ⟨info, hinfo⟩ hstored
    unfold stored at hstored
    dsimp only at hinfo hstored
    by_cases hsame : toolPath w.registry.toolsDir hash = some path
    · -- the file has just been written, so it is the new tool that is asked for
      have hhash : hash = toolHash blake3 bytes := by
        rw [Finmap.lookup_insert_eq] at hinfo
        split at hinfo
        next heq => exact heq
        next => exact hown hash ⟨info, hinfo⟩ (hsame.trans hpath.symm)
      rw [hsame, Option.bind_some, Finmap.lookup_insert] at hstored
      rw [hhash, Option.some.inj hstored]
    · have hother : w.stored hash = some bytes' := by
        unfold stored
        cases hpath' : toolPath w.registry.toolsDir hash with
        | none =>
            rw [hpath'] at hstored
            cases hstored
        | some path' =>
            rw [hpath'] at hsame hstored
            rw [Option.bind_some, Finmap.lookup_insert_of_ne _ fun heq => hsame (by rw [heq])]
              at hstored
            exact hstored
      refine h hash bytes' ⟨info, ?_⟩ hother
      rw [Finmap.lookup_insert_eq, if_neg] at hinfo
      · exact hinfo
      · rintro rfl
        exact hsame hpath

theorem vouched_of_careful_step (h : Intact blake3 w) {e : Event} (hcareful : Careful blake3 w e) :
    Vouched blake3 w e := by
  cases e with
  | registerTool name bytes written => trivial
  | restart => trivial
  | execute r =>
      exact ⟨fun _ => hcareful, fun _ _ bytes _ hstored _ =>
        ⟨hcareful, h r.toolHash bytes hcareful hstored⟩⟩

theorem intact_step (h : Intact blake3 w) {e : Event} (hcareful : Careful blake3 w e) :
    Intact blake3 (step blake3 w e) := by
  cases e with
  | registerTool name bytes written => exact intact_registerTool h hcareful
  | restart =>
      rintro hash bytes ⟨info, hinfo⟩
      cases hinfo
  | execute r =>
      show Intact blake3 (w.execute r).2
      obtain ⟨compiled, hsnd⟩ := w.getCompiled_snd r.toolHash r.readable
      rw [execute_snd, hsnd]
      exact h

end Careful

/-- **Careful callers** are safe: whatever is on the disk, in a run that registers tools with
files of their own and calls only these, all that is run is vouched for. -/
theorem vouched_of_careful (blake3 : List UInt8 → Blake3Hash) (toolsDir : Path) (disk : Disk)
    (es : List Event) (h : Along (step blake3) (Careful blake3) (.new S toolsDir disk) es) :
    Along (step blake3) (Vouched blake3) (.new S toolsDir disk) es := by
  refine along_of_inv (I := Intact blake3)
    (fun w e hintact hcareful => ⟨intact_step hintact hcareful,
      vouched_of_careful_step hintact hcareful⟩) ?_ h
  rintro hash bytes ⟨info, hinfo⟩
  cases hinfo

section Example

/-- An empty module, and the only one. -/
private def emptyModule : List UInt8 := [0x00, 0x61, 0x73, 0x6d, 0x01, 0x00, 0x00, 0x00]

private def sandbox : WasmSandbox :=
  ⟨Unit, fun bytes => if bytes = emptyModule then .ok () else .error "not a module"⟩

/-- The hash of the empty module. -/
private def hashed : List UInt8 → Blake3Hash := fun _ =>
  ⟨[0x0d, 0x66, 0xd4, 0x11, 0xa2, 0x1e, 0x80, 0xd9, 0x3a, 0xfa, 0x14, 0x87, 0xb0, 0x02, 0xa1, 0x86,
    0x74, 0x32, 0xc0, 0x4b, 0xa1, 0xd0, 0x8d, 0xc7, 0x90, 0xd2, 0x59, 0x63, 0x9f, 0x6a, 0x69, 0xc4],
    rfl⟩

private def fullHash : String := "0d66d411a21e80d93afa1487b002a1867432c04ba1d08dc790d259639f6a69c4"

/-- A call under the first 16 characters of the hash. -/
private def shortened : Request := ⟨"0d66d411a21e80d9", "main", .null, .all, true⟩

/-- The executor after the empty module has been registered. -/
private def registered : WasmExecutor sandbox :=
  ⟨⟨["tools"], (∅ : FiniteMap _ _).insert fullHash (infoOf hashed "empty" emptyModule), ∅⟩,
    (∅ : Disk).insert ["tools", "0d66d411a21e80d9.wasm"] (.file emptyModule)⟩

private theorem step_registered : step hashed (.new sandbox ["tools"] ∅)
    (.registerTool "empty" emptyModule (some 8)) = registered := by
  have hhash : toolHash hashed emptyModule = fullHash := by decide
  have hpath : toolPath ["tools"] fullHash = some ["tools", "0d66d411a21e80d9.wasm"] := by
    decide
  show (registerTool hashed (.new sandbox ["tools"] ∅) "empty" emptyModule (some 8)).2 = _
  unfold registerTool new
  dsimp only
  rw [hhash, hpath]
  rfl

private theorem stored_shortened : registered.stored shortened.toolHash = some emptyModule := by
  have hpath : toolPath registered.registry.toolsDir shortened.toolHash =
      some ["tools", "0d66d411a21e80d9.wasm"] := by
    decide
  unfold stored
  rw [hpath, Option.bind_some]
  unfold registered
  rw [Finmap.lookup_insert]

/-- The full hash is registered, and the file is its own. -/
theorem vouched_full_hash : Along (step hashed) (Vouched hashed) (.new sandbox ["tools"] ∅)
    [.registerTool "empty" emptyModule (some 8), .execute ⟨fullHash, "main", .null, .all, true⟩] := by
  refine vouched_of_careful hashed ["tools"] ∅ _ ⟨⟨⟨8, rfl, le_rfl⟩, ?_⟩, ?_, trivial⟩
  · rintro hash ⟨info, hinfo⟩
    cases hinfo
  · rw [step_registered]
    exact ⟨infoOf hashed "empty" emptyModule, Finmap.lookup_insert ..⟩

/-- **A shortened hash runs**: nobody has registered a tool under these 16 characters, and the
module whose hash begins with them is run, with all capabilities. -/
theorem shortened_hash_runs :
    ¬ Along (step hashed) (Enforced hashed) (.new sandbox ["tools"] ∅)
      [.registerTool "empty" emptyModule (some 8), .execute shortened] := by
  rintro ⟨-, henforced, -⟩
  have hgood : Good hashed (step hashed (.new sandbox ["tools"] ∅)
      (.registerTool "empty" emptyModule (some 8))) :=
    good_registerTool ⟨fun _ _ hnone => (by cases hnone), fun _ _ hnone => (by cases hnone)⟩
      "empty" emptyModule (some 8)
  rw [step_registered] at henforced hgood
  have hget : (registered.getCompiled shortened.toolHash shortened.readable).1 =
      .ok ⟨emptyModule, (), rfl⟩ :=
    getCompiled_eq_ok_iff.2 (.inr ⟨rfl, stored_shortened, rfl⟩)
  obtain ⟨info, hinfo, -⟩ := henforced _ ((execute_eq_ok_iff hgood).2 ⟨_, hget, rfl⟩)
  unfold registered at hinfo
  rw [Finmap.lookup_insert_of_ne _ (by decide)] at hinfo
  cases hinfo

end Example

end WasmExecutor
end PeerClaw
