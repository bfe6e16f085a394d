import HxcppLuv.Core.CInt
import HxcppLuv.Asio.Result

/-!
The chain of `uv_fs_read` requests behind `File.read`. `read` submits the first
link; `readCallback` is the completion of any link and either ends the chain or
copies the chunk out of the shared buffer and submits the next link with the
same request. Both return what the chain still owns and, in order, what they did
with it.
-/

namespace HxcppLuv.File

open Asio

/-- `ReadRequestData`. The loop and the two callbacks never change and are left
out; `array` is the content of the Haxe array the chunks are appended to. -/
structure ReadRequestData where
  offset : Int
  file : Nat
  array : List UInt8
  deriving DecidableEq

inductive Effect where
  | allocate
  | submit (file : Nat) (offset rc : Int)
  | copyOut (chunk : List UInt8)
  | callbackSuccess (data : List UInt8)
  | callbackError (code : Int)
  | deleteData
  | deleteRequest
  deriving DecidableEq

/-- `cpp::luv::file::read`; `rc` is what `uv_fs_read` returned. -/
def read (file : Nat) (offset rc : Int) : Option ReadRequestData × List Effect :=
  if rc < 0 then
    (none, [.allocate, .submit file offset rc, .deleteData, .deleteRequest, .callbackError rc])
  else
    (some ⟨offset, file, []⟩, [.allocate, .submit file offset rc])

/-- `read_callback` on a request with the given `result`; `base` is the shared
buffer and `rc` what the nested `uv_fs_read` returns, where one is made. The
owning pointers go out of scope after the callback has run. -/
def readCallback (data : ReadRequestData) (result : Int) (base : List UInt8) (rc : Int) :
    Option ReadRequestData × List Effect :=
  if result < 0 then
    (none, [.callbackError result, .deleteData, .deleteRequest])
  else if result = 0 then
    (none, [.callbackSuccess data.array, .deleteData, .deleteRequest])
  else
    let chunk := base.take result.toNat
    let next := { data with
      offset := cInt (data.offset + result), array := data.array ++ chunk }
    let done : List Effect := [.copyOut chunk, .submit data.file next.offset rc]
    if rc < 0 then
      (none, done ++ [.callbackError rc, .deleteData, .deleteRequest])
    else
      (some next, done)

theorem readCallback_zero (data : ReadRequestData) (base : List UInt8) (rc : Int) :
    readCallback data 0 base rc =
      (none, [.callbackSuccess data.array, .deleteData, .deleteRequest]) := by
  simp [readCallback]

theorem readCallback_neg {data : ReadRequestData} {result rc : Int} {base : List UInt8}
    (h : result < 0) : readCallback data result base rc =
      (none, [.callbackError result, .deleteData, .deleteRequest]) := by
  simp [readCallback, h]

/-- The next link is refused. -/
theorem readCallback_refused {data : ReadRequestData} {result rc : Int} {base : List UInt8}
    (h : 0 < result) (hrc : rc < 0) : readCallback data result base rc =
      (none, [.copyOut (base.take result.toNat),
        .submit data.file (cInt (data.offset + result)) rc, .callbackError rc, .deleteData,
        .deleteRequest]) := by
  have h1 : ¬ result < 0 := by omega
  have h2 : ¬ result = 0 := by omega
  simp [readCallback, h1, h2, hrc]

theorem readCallback_pos {data : ReadRequestData} {result rc : Int} {base : List UInt8}
    (h : 0 < result) (hrc : 0 ≤ rc) : readCallback data result base rc =
      (some ⟨cInt (data.offset + result), data.file, data.array ++ base.take result.toNat⟩,
        [.copyOut (base.take result.toNat),
          .submit data.file (cInt (data.offset + result)) rc]) := by
  have h1 : ¬ result < 0 := by omega
  have h2 : ¬ result = 0 := by omega
  have h3 : ¬ rc < 0 := by omega
  simp [readCallback, h1, h2, h3]

/-- The offset `cpp.asio.File.read` starts the chain with. -/
def startOffset : Int := -1

/-- The two closures `cpp.asio.File.read` passes down. -/
def userCall : Effect → Option (Result (List UInt8) Code)
  | .callbackSuccess data => some (.success data)
  | .callbackError code => some (.error code)
  | _ => none

end HxcppLuv.File
