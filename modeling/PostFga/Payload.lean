import PostFga.Lib.CString
/-
# What a slot carries: `FgaPayload` (`payload.h`)

| here | there |
| --- | --- |
| `FgaTuple`          | `:12`; every member is a `char[64]` |
| `FgaResponseStatus` | `:31`; the zero value is `ok` |
| `FGA_REQUEST_*`     | `:40`, those that a request is made or read with |
| `FgaRequest`        | `:114`. The request union is as large as a tuple, and a tuple is five `char[64]` in a row, so `createStore.name` is the bytes of `objectType` |
| `FgaResponseBody`   | the response union: 128 bytes of which `createStore.id` is the first half and `createStore.name` the second; `checkTuple.allow` and `deleteTuple.success` are both the first byte |
| `FgaPayload.zero`   | the payload after `MemSet(&slot->payload, 0, ..)` (`channel.c:128`) |
| `strlcpy`           | copies what fits and always terminates |

`FgaRequestState` (`:22`) is used by nothing.
-/

namespace PostFga

abbrev OBJECT_TYPE_MAX_LEN : Nat := 64
abbrev OBJECT_ID_MAX_LEN : Nat := 64
abbrev SUBJECT_TYPE_MAX_LEN : Nat := 64
abbrev SUBJECT_ID_MAX_LEN : Nat := 64
abbrev RELATION_MAX_LEN : Nat := 64
abbrev OPENFGA_STORE_ID_LEN : Nat := 64
abbrev OPENFGA_STORE_NAME_LEN : Nat := 64
abbrev OPENFGA_MODEL_ID_LEN : Nat := 64
abbrev FGA_RESPONSE_ERROR_MESSAGE_LEN : Nat := 128

def strlcpy {n : Nat} (dst : CharArray (n + 1)) (src : CStr) : CharArray (n + 1) := dst.store src

@[simp] theorem cstr_strlcpy {n : Nat} (dst : CharArray (n + 1)) (src : CStr) :
    (strlcpy dst src).cstr = src.bytes.take n := CharArray.cstr_store dst src

structure FgaTuple where
  objectType : CharArray OBJECT_TYPE_MAX_LEN
  objectId : CharArray OBJECT_ID_MAX_LEN
  subjectType : CharArray SUBJECT_TYPE_MAX_LEN
  subjectId : CharArray SUBJECT_ID_MAX_LEN
  relation : CharArray RELATION_MAX_LEN
deriving DecidableEq, Repr

inductive FgaResponseStatus where
  | ok | clientError | transportError | serverError
deriving DecidableEq, Repr

abbrev FGA_REQUEST_CHECK : UInt16 := 1
abbrev FGA_REQUEST_WRITE_TUPLE : UInt16 := 3
abbrev FGA_REQUEST_DELETE_TUPLE : UInt16 := 4
abbrev FGA_REQUEST_GET_STORE : UInt16 := 6
abbrev FGA_REQUEST_CREATE_STORE : UInt16 := 7
abbrev FGA_REQUEST_DELETE_STORE : UInt16 := 8

structure FgaRequest where
  requestId : UInt64
  type : UInt16
  storeId : CharArray OPENFGA_STORE_ID_LEN
  modelId : CharArray OPENFGA_MODEL_ID_LEN
  body : FgaTuple
deriving DecidableEq, Repr

/-- `body.createStore.name`. -/
def FgaRequest.storeName (r : FgaRequest) : CharArray OPENFGA_STORE_NAME_LEN := r.body.objectType

def FgaRequest.setStoreName (r : FgaRequest) (name : CharArray OPENFGA_STORE_NAME_LEN) : FgaRequest :=
  { r with body := { r.body with objectType := name } }

structure FgaResponseBody where
  id : CharArray OPENFGA_STORE_ID_LEN
  name : CharArray OPENFGA_STORE_NAME_LEN
deriving DecidableEq, Repr

/-- `checkTuple.allow` and `deleteTuple.success`. -/
def FgaResponseBody.flag (b : FgaResponseBody) : Bool := b.id.bytes.head? != some 0

def FgaResponseBody.setFlag (b : FgaResponseBody) (v : Bool) : FgaResponseBody :=
  { b with id := ⟨b.id.bytes.set 0 (if v then 1 else 0), by simp [b.id.len]⟩ }

structure FgaResponse where
  status : FgaResponseStatus
  errorMessage : CharArray FGA_RESPONSE_ERROR_MESSAGE_LEN
  body : FgaResponseBody
deriving DecidableEq, Repr

/-- `body.checkTuple.allow`. -/
def FgaResponse.allow (r : FgaResponse) : Bool := r.body.flag

structure FgaPayload where
  request : FgaRequest
  response : FgaResponse
deriving DecidableEq, Repr

def FgaPayload.zero : FgaPayload where
  request := { requestId := 0, type := 0, storeId := .zero _, modelId := .zero _,
               body := ⟨.zero _, .zero _, .zero _, .zero _, .zero _⟩ }
  response := { status := .ok, errorMessage := .zero _, body := ⟨.zero _, .zero _⟩ }

@[simp] theorem flag_setFlag (b : FgaResponseBody) (v : Bool) : (b.setFlag v).flag = v := by
  have hlen := b.id.len
  obtain ⟨x, xs, hx⟩ : ∃ x xs, b.id.bytes = x :: xs := by
    cases h : b.id.bytes with
    | nil => rw [h] at hlen; cases hlen
    | cons x xs => exact ⟨x, xs, rfl⟩
  cases v <;> simp [FgaResponseBody.flag, FgaResponseBody.setFlag, hx]

end PostFga
