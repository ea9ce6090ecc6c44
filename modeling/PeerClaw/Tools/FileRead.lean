import Mathlib.Algebra.Group.Int.Defs
import PeerClaw.Lib.Utf8
import PeerClaw.Tools.ProtectedPaths
import PeerClaw.Tools.Tool

/-!
# Reading a file

`FileReadTool` in `tools/builtin/file.rs` reads a part of a file: from an offset on, up to
a limit.  Both are signed in JSON and become unsigned; the offset is taken from the size of
the file, and one read has to do.

* `FileReadTool.execute` — a call.  There is no result where it panics.
* `remaining_exact_iff` — when the subtraction is one.
* `read_eq_requested_iff` — when what has been read is what was asked for.
* `returnsRange_iff` — both together: when a call that gets to the file does what it is asked.
-/

namespace PeerClaw
namespace Tools

open Lib Lib.Path

/-- Maximum file size to read (10 MB). -/
def maxReadSize : ℕ := 10 * 1024 * 1024

/-- A file of a disk, and what the system makes of the calls on it. -/
structure DiskFile where
  content : List UInt8
  size_lt : content.length < 2 ^ 64
  opens : Except String Unit
  seek : UInt64 → Except String Unit
  /-- How many bytes one read puts into a buffer of some length, from a position on. -/
  read : UInt64 → ℕ → Except String ℕ
  read_le : ∀ pos len k, read pos len = .ok k → k ≤ len ∧ k ≤ content.length - pos.toNat
  /-- Nothing is read only at the end of the file, or into a buffer without room. -/
  read_zero : ∀ pos len, read pos len = .ok 0 → len = 0 ∨ content.length ≤ pos.toNat

def DiskFile.size (f : DiskFile) : UInt64 := f.content.length.toUInt64

/-- The standard encoding of bytes in base 64. -/
structure Base64 where
  encode : List UInt8 → String
  injective : Function.Injective encode

/-- The system that a call runs in, and how the program was built. -/
structure FileEnv where
  casing : Text.Casing
  home : Option String
  /-- What is at a path: a file, or something else. -/
  lookup : String → Except String (Option DiskFile)
  base64 : Base64
  overflowChecks : Bool
  elapsedMs : UInt64

/-! ## The path -/

/-- `PathBuf::join`. -/
def joinText (base path : String) : String :=
  if IsRooted path then path
  else if base = "" ∨ base.toList.getLast? = some '/' then base ++ path
  else base ++ "/" ++ path

/-- The components without those at either end that are empty or a dot. -/
def trimParts (ps : List String) : List String :=
  let blank := fun part => decide (part = "" ∨ part = ".")
  ((ps.dropWhile blank).reverse.dropWhile blank).reverse

/-- `resolve_path`. -/
def resolvePath (home : Option String) (path workingDir : String) : String :=
  if IsRooted path then path
  else
    match parts path with
    | "~" :: rest =>
        match home with
        | some home => joinText home (Text.join "/" (trimParts rest))
        | none => path
    | _ => joinText workingDir path

namespace FileReadTool

/-! ## The parameters -/

/-- The path, under either name. -/
def pathParam (params : Value) : Except ToolError String :=
  match requireStr params "path" with
  | .ok path => .ok path
  | .error _ => requireStr params "file_path"

def encoding (params : Value) : String := (optionalStr params "encoding").getD "utf8"

def offset (params : Value) : UInt64 := (optionalI64 params "offset" 0).toUInt64

def limit (params : Value) : UInt64 :=
  (optionalI64 params "limit" (Int64.ofNat maxReadSize)).toUInt64

/-! ## The call -/

variable (env : FileEnv) (params : Value) (workingDir : String)

/-- Open a file at the offset. -/
def openAt (path : String) (file : DiskFile) : Except ToolError (String × DiskFile) :=
  match file.opens with
  | .error e => .error (.executionFailed s!"Cannot open file: {e}")
  | .ok () =>
      if 0 < offset params then
        match file.seek (offset params) with
        | .error e => .error (.executionFailed s!"Cannot seek: {e}")
        | .ok () => .ok (path, file)
      else .ok (path, file)

/-- All that comes before the read: the path and the file that has been opened at the offset. -/
def openTarget : Except ToolError (String × DiskFile) :=
  match pathParam params with
  | .error e => .error e
  | .ok pathStr =>
      if File.isProtectedPath env.casing pathStr then
        .error (.notAuthorized s!"Access to {pathStr} is not allowed")
      else
        let path := resolvePath env.home pathStr workingDir
        match env.lookup path with
        | .error e => .error (.executionFailed s!"Cannot access file: {e}")
        | .ok none => .error (.executionFailed "Path is not a file")
        | .ok (some file) =>
            if maxReadSize < file.content.length then
              .error (.executionFailed (s!"File too large: {file.content.length} bytes (max " ++
                s!"{maxReadSize} bytes). Use offset/limit for partial reads."))
            else openAt params path file

/-- What is left of the file: a difference of unsigned numbers, which panics or wraps around where
there is none. -/
def remaining (overflowChecks : Bool) (fileSize offset : UInt64) : Option UInt64 :=
  if overflowChecks ∧ fileSize < offset then none else some (fileSize - offset)

/-- What is returned for some bytes. -/
def answer (path : String) (file : DiskFile) (bytes : List UInt8) : Except ToolError ToolOutput :=
  let result := fun (encoding content : String) => ToolOutput.ofSuccess (.ofFields
    [("path", .string path), ("size", .nat file.size), ("bytes_read", .nat bytes.length.toUInt64),
      ("encoding", .string encoding), ("content", .string content)]) env.elapsedMs
  if encoding params = "base64" then .ok (result "base64" (env.base64.encode bytes))
  else
    match Utf8.decode? bytes with
    | none => .error (.executionFailed
        "File is not valid UTF-8. Use encoding: base64 for binary files.")
    | some content => .ok (result "utf8" (String.ofList content))

/-- The bytes that one read gets from the offset on. -/
def bytesRead (file : DiskFile) (k : ℕ) : List UInt8 :=
  (file.content.drop (offset params).toNat).take k

/-- The read; a buffer of more than `isize::MAX` bytes panics. -/
def readFrom (path : String) (file : DiskFile) (rest : UInt64) :
    Option (Except ToolError ToolOutput) :=
  let len := (min (limit params) rest).toNat
  if 2 ^ 63 ≤ len then none
  else
    match file.read (offset params) len with
    | .error e => some (.error (.executionFailed s!"Cannot read file: {e}"))
    | .ok k => some (answer env params path file (bytesRead params file k))

/-- Execute the tool. -/
def execute : Option (Except ToolError ToolOutput) :=
  match openTarget env params workingDir with
  | .error e => some (.error e)
  | .ok (path, file) =>
      (remaining env.overflowChecks file.size (offset params)).bind (readFrom env params path file)

/-! ## What is asked for -/

/-- The number that a parameter asks for, if it is a whole one. -/
def requested (key : String) (fallback : ℤ) : ℤ :=
  match params.get? key with
  | some (.number (.posInt n)) => n.toNat
  | some (.number (.negInt n)) => n.toInt
  | _ => fallback

def requestedOffset : ℤ := requested params "offset" 0

def requestedLimit : ℤ := requested params "limit" maxReadSize

/-- The bytes from the offset on, up to the limit or the end of the file. -/
def requestedBytes (content : List UInt8) : List UInt8 :=
  (content.take (min (requestedOffset params + requestedLimit params) content.length).toNat).drop
    (requestedOffset params).toNat

/-- A call does what it is asked: the length that is left is computed without an overflow, and the
call fails or returns the bytes. -/
structure ReturnsRange : Prop where
  exact : ∀ path file, openTarget env params workingDir = .ok (path, file) →
    ∃ rest, remaining env.overflowChecks file.size (offset params) = some rest ∧
      (rest.toNat : ℤ) = file.content.length - (offset params).toNat
  bytes : (∃ e, execute env params workingDir = some (.error e)) ∨
    ∃ path file, openTarget env params workingDir = .ok (path, file) ∧
      execute env params workingDir =
        some (answer env params path file (requestedBytes params file.content))

/-- The offset is read as it was given, and the limit is not negative. -/
def Given : Prop := requestedOffset params = (offset params).toNat ∧ 0 ≤ requestedLimit params

instance : Decidable (Given params) := inferInstanceAs (Decidable (_ ∧ _))

/-- The bytes can be returned in the encoding. -/
def Legible (bytes : List UInt8) : Prop :=
  encoding params = "base64" ∨ (Utf8.decode? bytes).isSome

/-- How many bytes there is room for. -/
def room (file : DiskFile) : ℕ :=
  min (limit params).toNat (file.content.length - (offset params).toNat)

/-- **What a call can handle.**  The offset is not behind the end of the file; and where something
legible is read, the parameters were given and the one read has filled the buffer, or else there
is nothing to be read. -/
def Handled : Prop :=
  ∀ path file, openTarget env params workingDir = .ok (path, file) →
    (offset params).toNat ≤ file.content.length ∧
      ∀ k, file.read (offset params) (room params file) = .ok k →
        Legible params (bytesRead params file k) →
          if Given params then k = room params file else room params file = 0

/-! ## The numbers -/

section Numbers

variable {params}

theorem toNat_toUInt64 (n : Int64) :
    (n.toUInt64.toNat : ℤ) = if n.toInt < 0 then n.toInt + 2 ^ 64 else n.toInt := by
  have hbits : n.toUInt64.toNat = n.toBitVec.toNat := rfl
  have hint : n.toInt = n.toBitVec.toInt := rfl
  have hlt := n.toBitVec.isLt
  rw [hbits, hint, BitVec.toInt_eq_toNat_cond]
  split <;> split <;> omega

/-- A parameter is read as the number that it asks for, unless that is too large. -/
theorem optionalI64_toInt (params : Value) (key : String) (fallback : Int64) :
    (optionalI64 params key fallback).toInt = requested params key fallback.toInt ∨
      (2 ^ 63 ≤ requested params key fallback.toInt ∧ optionalI64 params key fallback = fallback) := by
  unfold optionalI64 requested
  cases params.get? key with
  | none => exact .inl rfl
  | some v =>
      cases v with
      | number n =>
          cases n with
          | posInt n =>
              rw [Option.bind_some, Value.asI64]
              dsimp only
              split
              · rename_i hlt
                left
                have hbits : n.toInt64.toBitVec = n.toBitVec := rfl
                have hnat : n.toBitVec.toNat = n.toNat := rfl
                rw [Option.getD_some, ← Int64.toInt_toBitVec, hbits, BitVec.toInt_eq_toNat_cond]
                split <;> omega
              · rename_i hlarge
                exact .inr ⟨by exact_mod_cast Nat.le_of_not_lt hlarge, rfl⟩
          | negInt n => exact .inl rfl
          | float text => exact .inl rfl
      | null => exact .inl rfl
      | bool b => exact .inl rfl
      | string s => exact .inl rfl
      | array values => exact .inl rfl
      | object fields => exact .inl rfl

/-- An offset that is not behind the end of a file that can be read is the one that was asked for, or
the one that was asked for is too large. -/
theorem offset_cases (h : (offset params).toNat ≤ maxReadSize) :
    requestedOffset params = (offset params).toNat ∨ 2 ^ 63 ≤ requestedOffset params := by
  have hcast := toNat_toUInt64 (optionalI64 params "offset" 0)
  rw [← offset] at hcast
  rcases optionalI64_toInt params "offset" 0 with hsame | ⟨hlarge, -⟩
  · left
    have hsame : (optionalI64 params "offset" 0).toInt = requestedOffset params := hsame
    rw [hsame] at hcast
    have hmax : maxReadSize = 10485760 := rfl
    have hlt := (optionalI64 params "offset" 0).toInt_lt
    have hle := (optionalI64 params "offset" 0).le_toInt
    split at hcast <;> omega
  · exact .inr hlarge

/-- There is room for the limit that was asked for, or for the rest of the file. -/
theorem limit_cases : (requestedLimit params < 0 ∧ 2 ^ 63 ≤ (limit params).toNat) ∨
    ((limit params).toNat : ℤ) = requestedLimit params ∨
      (2 ^ 63 ≤ requestedLimit params ∧ (limit params).toNat = maxReadSize) := by
  have hmax : (Int64.ofNat maxReadSize).toInt = maxReadSize := by decide
  have hcast := toNat_toUInt64 (optionalI64 params "limit" (Int64.ofNat maxReadSize))
  rw [← limit] at hcast
  have hle := (optionalI64 params "limit" (Int64.ofNat maxReadSize)).le_toInt
  rcases optionalI64_toInt params "limit" (Int64.ofNat maxReadSize) with
    hsame | ⟨hlarge, hfallback⟩
  · rw [hmax] at hsame
    have hsame : _ = requestedLimit params := hsame
    rw [hsame] at hcast hle
    split at hcast
    · left
      omega
    · exact .inr (.inl hcast)
  · rw [hmax] at hlarge
    right
    right
    refine ⟨hlarge, ?_⟩
    rw [limit, hfallback]
    decide

end Numbers

/-! ## What a call returns -/

section Calls

variable {env params workingDir} {path : String} {file : DiskFile}

theorem size_toNat (file : DiskFile) : file.size.toNat = file.content.length := by
  rw [DiskFile.size, Nat.toUInt64, UInt64.toNat_ofNat_of_lt' file.size_lt]

/-- **When the subtraction is one.** -/
theorem remaining_exact_iff (overflowChecks : Bool) (fileSize offset : UInt64) :
    (∃ rest, remaining overflowChecks fileSize offset = some rest ∧
        (rest.toNat : ℤ) = fileSize.toNat - offset.toNat) ↔ offset.toNat ≤ fileSize.toNat := by
  unfold remaining
  constructor
  · rintro ⟨rest, -, hrest⟩
    omega
  · intro hle
    have hnot : ¬ fileSize < offset := by
      rw [UInt64.lt_iff_toNat_lt]
      omega
    refine ⟨fileSize - offset, if_neg fun h => hnot h.2, ?_⟩
    rw [UInt64.toNat_sub_of_le _ _ (UInt64.le_iff_toNat_le.2 hle)]
    omega

theorem openAt_ok {path' : String} {file' : DiskFile} (h : openAt params path file = .ok (path', file')) :
    file' = file := by
  unfold openAt at h
  split at h
  · cases h
  · split at h
    · split at h
      · cases h
      · cases h
        rfl
    · cases h
      rfl

theorem length_le_of_openTarget (h : openTarget env params workingDir = .ok (path, file)) :
    file.content.length ≤ maxReadSize := by
  unfold openTarget at h
  split at h
  · cases h
  · split at h
    · cases h
    · dsimp only at h
      split at h
      · cases h
      · cases h
      · split at h
        · cases h
        · rename_i hsmall
          rw [openAt_ok h]
          exact Nat.le_of_not_lt hsmall

theorem length_bytesRead {k : ℕ} (hk : k ≤ file.content.length - (offset params).toNat) :
    (bytesRead params file k).length = k := by
  rw [bytesRead, List.length_take, List.length_drop]
  omega

theorem requestedBytes_of_given (hsize : file.content.length ≤ maxReadSize)
    (hoffset : (offset params).toNat ≤ file.content.length) (h : Given params) :
    requestedBytes params file.content = bytesRead params file (room params file) := by
  obtain ⟨hsame, hlimit⟩ := h
  have hmax : maxReadSize = 10485760 := rfl
  rw [requestedBytes, bytesRead, hsame, Int.toNat_natCast, List.drop_take]
  congr 1
  rw [room]
  rcases @limit_cases params with ⟨hneg, -⟩ | heq | ⟨hlarge, hfallback⟩ <;> omega

theorem requestedBytes_of_not_given (hsize : file.content.length ≤ maxReadSize)
    (hoffset : (offset params).toNat ≤ file.content.length) (h : ¬ Given params) :
    requestedBytes params file.content = [] := by
  have hmax : maxReadSize = 10485760 := rfl
  rw [requestedBytes, List.drop_eq_nil_iff, List.length_take]
  rcases offset_cases (hoffset.trans hsize) with hsame | hlarge
  · have hlimit : requestedLimit params < 0 := by
      by_contra hnot
      exact h ⟨hsame, Int.not_lt.1 hnot⟩
    omega
  · omega

/-- **When what has been read is what was asked for**: the buffer is full, or else there is no room
in it. -/
theorem read_eq_requested_iff (hsize : file.content.length ≤ maxReadSize)
    (hoffset : (offset params).toNat ≤ file.content.length) {k : ℕ}
    (hread : file.read (offset params) (room params file) = .ok k) :
    bytesRead params file k = requestedBytes params file.content ↔
      if Given params then k = room params file else room params file = 0 := by
  have hk := file.read_le _ _ _ hread
  have hlength : (bytesRead params file k).length = k := length_bytesRead hk.2
  by_cases hgiven : Given params
  · rw [if_pos hgiven, requestedBytes_of_given hsize hoffset hgiven]
    have hroom : (bytesRead params file (room params file)).length = room params file :=
      length_bytesRead (Nat.min_le_right _ _)
    constructor
    · intro heq
      rw [← hlength, ← hroom, heq]
    · rintro rfl
      rfl
  · rw [if_neg hgiven, requestedBytes_of_not_given hsize hoffset hgiven, ← List.length_eq_zero_iff,
      hlength]
    constructor
    · rintro rfl
      rcases file.read_zero _ _ hread with hnone | hend
      · exact hnone
      · rw [room]
        omega
    · intro hnone
      omega

theorem content_of_answer {bytes : List UInt8} {out : ToolOutput}
    (h : answer env params path file bytes = .ok out) :
    out.data.get? "content" = some (.string (if encoding params = "base64" then
      env.base64.encode bytes else String.ofList ((Utf8.decode? bytes).getD []))) := by
  unfold answer at h
  split at h
  · rename_i hbase
    rw [if_pos hbase, ← Except.ok.inj h]
    exact Value.get?_ofFields_concat [_, _, _, _] "content" _
  · rename_i hbase
    rw [if_neg hbase]
    split at h
    · cases h
    · rename_i content hcontent
      rw [hcontent, ← Except.ok.inj h]
      exact Value.get?_ofFields_concat [_, _, _, _] "content" _

theorem isOk_answer_iff {bytes : List UInt8} :
    (∃ out, answer env params path file bytes = .ok out) ↔ Legible params bytes := by
  unfold answer Legible
  by_cases hbase : encoding params = "base64"
  · simp [hbase]
  · cases hdecode : Utf8.decode? bytes <;> simp [hbase]

theorem answer_inj {bytes bytes' : List UInt8} {out : ToolOutput}
    (h : answer env params path file bytes = .ok out)
    (h' : answer env params path file bytes' = .ok out) : bytes = bytes' := by
  have hcontent := (content_of_answer h).symm.trans (content_of_answer h')
  by_cases hbase : encoding params = "base64"
  · rw [if_pos hbase, if_pos hbase] at hcontent
    exact env.base64.injective (Value.string.inj (Option.some.inj hcontent))
  · rw [if_neg hbase, if_neg hbase] at hcontent
    obtain ⟨cs, hcs⟩ := Option.isSome_iff_exists.1 ((isOk_answer_iff.1 ⟨out, h⟩).resolve_left hbase)
    obtain ⟨cs', hcs'⟩ :=
      Option.isSome_iff_exists.1 ((isOk_answer_iff.1 ⟨out, h'⟩).resolve_left hbase)
    rw [hcs, hcs'] at hcontent
    have hsame : cs = cs' := by
      have htext := congrArg String.toList (Value.string.inj (Option.some.inj hcontent))
      simpa using htext
    rw [← Utf8.decode?_eq_some_iff.1 hcs, ← Utf8.decode?_eq_some_iff.1 hcs', hsame]

/-- A call that gets to the read, with an offset that is not behind the end of the file. -/
theorem execute_of_openTarget (hopen : openTarget env params workingDir = .ok (path, file))
    (hoffset : (offset params).toNat ≤ file.content.length) :
    execute env params workingDir =
      match file.read (offset params) (room params file) with
      | .error e => some (.error (.executionFailed s!"Cannot read file: {e}"))
      | .ok k => some (answer env params path file (bytesRead params file k)) := by
  have hsize := size_toNat file
  have hle : (offset params).toNat ≤ file.size.toNat := by rw [hsize]; exact hoffset
  obtain ⟨rest, hrest, hexact⟩ := (remaining_exact_iff env.overflowChecks _ _).2 hle
  have hlen : (min (limit params) rest).toNat = room params file := by
    have hmin : min (limit params) rest = if limit params ≤ rest then limit params else rest := rfl
    rw [hmin, room]
    split
    · rename_i hfits
      have hlimit := UInt64.le_iff_toNat_le.1 hfits
      omega
    · rename_i hlong
      have hlimit : ¬ (limit params).toNat ≤ rest.toNat := fun h =>
        hlong (UInt64.le_iff_toNat_le.2 h)
      omega
  have hmax : maxReadSize = 10485760 := rfl
  have hsmall := length_le_of_openTarget hopen
  have hroom : room params file ≤ file.content.length := by
    rw [room]
    omega
  rw [execute, hopen]
  dsimp only
  rw [hrest, Option.bind_some, readFrom, hlen, if_neg (by omega)]

/-- **When a call does what it is asked.**  Exactly if it is one that can be handled. -/
theorem returnsRange_iff (env : FileEnv) (params : Value) (workingDir : String) :
    ReturnsRange env params workingDir ↔ Handled env params workingDir := by
  constructor
  · rintro ⟨hexact, hbytes⟩ path file hopen
    have hoffset : (offset params).toNat ≤ file.content.length := by
      rw [← size_toNat file]
      apply (remaining_exact_iff env.overflowChecks file.size (offset params)).1
      rw [size_toNat file]
      exact hexact path file hopen
    refine ⟨hoffset, fun k hread hlegible => ?_⟩
    have hrun := execute_of_openTarget hopen hoffset
    rw [hread] at hrun
    obtain ⟨out, hout⟩ : ∃ out, answer env params path file (bytesRead params file k) = .ok out :=
      isOk_answer_iff.2 hlegible
    dsimp only at hrun
    rw [hout] at hrun
    rw [← read_eq_requested_iff (length_le_of_openTarget hopen) hoffset hread]
    rcases hbytes with ⟨e, he⟩ | ⟨path', file', hopen', hanswer⟩
    · rw [hrun] at he
      cases he
    · rw [hopen] at hopen'
      cases hopen'
      rw [hrun] at hanswer
      exact answer_inj hout (Option.some.inj hanswer).symm
  · intro h
    refine ⟨fun path file hopen => ?_, ?_⟩
    · rw [← size_toNat file, remaining_exact_iff, size_toNat file]
      exact (h path file hopen).1
    · cases hopen : openTarget env params workingDir with
      | error e => exact .inl ⟨e, by rw [execute, hopen]⟩
      | ok target =>
          obtain ⟨path, file⟩ := target
          obtain ⟨hoffset, hreads⟩ := h path file hopen
          have hrun := execute_of_openTarget hopen hoffset
          cases hread : file.read (offset params) (room params file) with
          | error e =>
              rw [hread] at hrun
              exact .inl ⟨_, hrun⟩
          | ok k =>
              rw [hread] at hrun
              by_cases hlegible : Legible params (bytesRead params file k)
              · refine .inr ⟨path, file, rfl, ?_⟩
                have hsame := (read_eq_requested_iff (length_le_of_openTarget hopen) hoffset
                  hread).2 (hreads k hread hlegible)
                rw [hrun]
                dsimp only
                rw [hsame]
              · cases hanswer : answer env params path file (bytesRead params file k) with
                | error e =>
                    refine .inl ⟨e, ?_⟩
                    rw [hrun]
                    exact congrArg some hanswer
                | ok out => exact absurd (isOk_answer_iff.1 ⟨out, hanswer⟩) hlegible

end Calls

end FileReadTool

/-! ## An offset behind the end -/

/-- A file with a greeting of five bytes. -/
def helloFile : DiskFile where
  content := [104, 101, 108, 108, 111]
  size_lt := by decide
  opens := .ok ()
  seek pos := if pos.toNat < 2 ^ 63 then .ok () else .error "Invalid argument (os error 22)"
  read pos len := .ok (min len (5 - pos.toNat))
  read_le pos len k h := by
    obtain rfl := Except.ok.inj h
    exact ⟨Nat.min_le_left _ _, Nat.min_le_right _ _⟩
  read_zero pos len h := by
    have hzero := Except.ok.inj h
    simp only [List.length_cons, List.length_nil]
    omega

/-- Bytes as characters; nothing is encoded below. -/
def plainBytes : Base64 where
  encode bytes := String.ofList (bytes.map fun b => Char.ofNat b.toNat)
  injective := by
    intro a b h
    have hmap := congrArg String.toList h
    simp only [String.toList_ofList] at hmap
    refine List.map_injective_iff.2 ?_ hmap
    intro x y hxy
    have hnat : ∀ z : UInt8, (Char.ofNat z.toNat).toNat = z.toNat := by
      intro z
      have hz := z.toNat_lt
      have hvalid : z.toNat.isValidChar := .inl (by omega)
      unfold Char.ofNat
      rw [dif_pos hvalid]
      rfl
    have hsame : Char.ofNat x.toNat = Char.ofNat y.toNat := hxy
    rw [← UInt8.toNat_inj, ← hnat x, ← hnat y, hsame]

/-- A system with that file, and a program that was built for release. -/
def helloEnv : FileEnv where
  casing := .ascii
  home := none
  lookup path := if path = "/tmp/hello" then .ok (some helloFile)
    else .error "No such file or directory (os error 2)"
  base64 := plainBytes
  overflowChecks := false
  elapsedMs := 0

def behindEnd : Value := .object [("offset", .nat 6), ("path", .string "/tmp/hello")]

theorem openTarget_behindEnd :
    FileReadTool.openTarget helloEnv behindEnd "/" = .ok ("/tmp/hello", helloFile) := by
  rfl

/-- The length that is left wraps around. -/
theorem behindEnd_not_returned : ¬ FileReadTool.ReturnsRange helloEnv behindEnd "/" := by
  intro h
  obtain ⟨rest, -, hrest⟩ := h.exact _ _ openTarget_behindEnd
  have hlength : helloFile.content.length = 5 := rfl
  have hoffset : (FileReadTool.offset behindEnd).toNat = 6 := by decide
  omega

end Tools
end PeerClaw
