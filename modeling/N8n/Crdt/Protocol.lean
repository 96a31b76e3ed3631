import N8n.Lib.Run
import N8n.Lib.Utf8

/-!
# The message protocol

A message begins with the byte of its type. The messages of workers go on with the document they
are for : two bytes with the length of its identifier, and the identifier in UTF-8. The length is
cut off to two bytes without a check.

`framing_lossless_iff` : a message for a document is read as it was written, and a message of the
server can be given an identifier and be stripped of it again, if the identifier fits, has no lone
surrogates and does not begin with a byte order mark. Where one of the three fails, no message is
read as it was written.
-/

open Lib

namespace N8n

/-- The code units of a string, and bytes. -/
abbrev DocId := List UInt16

abbrev Bytes := List UInt8

def encodeMessage (messageType : UInt8) (payload : Bytes) : Bytes := messageType :: payload

def decodeMessage : Bytes → Except String (UInt8 × Bytes)
  | [] => .error "Empty message"
  | messageType :: payload => .ok (messageType, payload)

structure WorkerMessage where
  messageType : UInt8
  docId : DocId
  payload : Bytes
  deriving DecidableEq, Repr

def encodeWithDocId (messageType : UInt8) (docId : DocId) (payload : Bytes) : Bytes :=
  let docIdBytes := Utf8.encode docId
  let docIdLen := docIdBytes.length
  messageType :: UInt8.ofNat (docIdLen / 256) :: UInt8.ofNat docIdLen :: (docIdBytes ++ payload)

def decodeWithDocId : Bytes → Except String WorkerMessage
  | messageType :: high :: low :: rest =>
    let docIdLen := high.toNat * 256 + low.toNat
    if rest.length < docIdLen then .error "Message too short for declared docId length"
    else .ok
      { messageType
        docId := Utf8.decode (rest.take docIdLen)
        payload := rest.drop docIdLen }
  | _ => .error "Message too short to contain docId"

def stripDocId (data : Bytes) : Except String Bytes := do
  let message ← decodeWithDocId data
  return encodeMessage message.messageType message.payload

def addDocId (docId : DocId) (data : Bytes) : Except String Bytes := do
  let (messageType, payload) ← decodeMessage data
  return encodeWithDocId messageType docId payload

variable (messageType : UInt8) (docId : DocId) (payload : Bytes)

/-- The length of the identifier that is read. -/
def declaredLength : ℕ := (Utf8.encode docId).length % 65536

/-- What is read is cut at the length that is left of the identifier's. -/
theorem decodeWithDocId_encodeWithDocId :
    decodeWithDocId (encodeWithDocId messageType docId payload) =
      .ok { messageType
            docId := Utf8.decode ((Utf8.encode docId ++ payload).take (declaredLength docId))
            payload := (Utf8.encode docId ++ payload).drop (declaredLength docId) } := by
  have hlength : (UInt8.ofNat ((Utf8.encode docId).length / 256)).toNat * 256 +
      (UInt8.ofNat (Utf8.encode docId).length).toNat = declaredLength docId := by
    rw [UInt8.toNat_ofNat', UInt8.toNat_ofNat', declaredLength]
    omega
  have hle : ¬(Utf8.encode docId ++ payload).length < declaredLength docId := by
    rw [List.length_append, declaredLength]
    omega
  rw [encodeWithDocId, decodeWithDocId, hlength]
  exact if_neg hle

/-- The payload is read if and only if the identifier fits. -/
theorem drop_declaredLength_iff :
    (Utf8.encode docId ++ payload).drop (declaredLength docId) = payload ↔
      (Utf8.encode docId).length < 65536 := by
  unfold declaredLength
  constructor
  · intro h
    have hlength := congrArg List.length h
    rw [List.length_drop, List.length_append] at hlength
    omega
  · intro h
    rw [Nat.mod_eq_of_lt h, List.drop_left]

theorem stripDocId_addDocId_iff :
    (addDocId docId (encodeMessage messageType payload) >>= stripDocId) =
        .ok (encodeMessage messageType payload) ↔
      (Utf8.encode docId).length < 65536 := by
  have hread : (addDocId docId (encodeMessage messageType payload) >>= stripDocId) =
      .ok (encodeMessage messageType
        ((Utf8.encode docId ++ payload).drop (declaredLength docId))) :=
    bind_eq_ok.mpr ⟨_, rfl, bind_eq_ok.mpr
      ⟨_, decodeWithDocId_encodeWithDocId messageType docId payload, rfl⟩⟩
  rw [hread, ← drop_declaredLength_iff docId payload]
  simp [encodeMessage]

/-- The identifier fits, and is text that decoding gives back. -/
structure IsFramable : Prop where
  fits : (Utf8.encode docId).length < 65536
  wellFormed : Utf8.isWellFormed docId = true
  unmarked : docId.head? ≠ some (UInt16.ofNat Utf8.byteOrderMark)

theorem decodeWithDocId_encodeWithDocId_iff :
    decodeWithDocId (encodeWithDocId messageType docId payload) =
        .ok { messageType, docId, payload } ↔ IsFramable docId := by
  rw [decodeWithDocId_encodeWithDocId]
  simp only [Except.ok.injEq, WorkerMessage.mk.injEq, true_and, drop_declaredLength_iff]
  constructor
  · rintro ⟨hdocId, hfits⟩
    rw [declaredLength, Nat.mod_eq_of_lt hfits, List.take_left, Utf8.decode_encode_eq_iff] at hdocId
    exact ⟨hfits, hdocId.1, hdocId.2⟩
  · rintro ⟨hfits, hwellFormed, hunmarked⟩
    rw [declaredLength, Nat.mod_eq_of_lt hfits, List.take_left, Utf8.decode_encode_eq_iff]
    exact ⟨⟨hwellFormed, hunmarked⟩, hfits⟩

/-- A framed message is read as it was written, and the messages of the server survive it. -/
theorem framing_lossless_iff :
    (decodeWithDocId (encodeWithDocId messageType docId payload) =
        .ok { messageType, docId, payload } ∧
      ∀ message, message ≠ [] → (addDocId docId message >>= stripDocId) = .ok message) ↔
    IsFramable docId := by
  rw [decodeWithDocId_encodeWithDocId_iff]
  refine and_iff_left_of_imp fun hframable message hne => ?_
  obtain ⟨type, payload, rfl⟩ := List.exists_cons_of_ne_nil hne
  exact (stripDocId_addDocId_iff type docId payload).mpr hframable.fits

/-- An identifier of 65536 letters is declared to be empty. -/
theorem framing_not_lossless :
    decodeWithDocId (encodeWithDocId 0 (List.replicate 65536 97) []) ≠
      .ok { messageType := 0, docId := List.replicate 65536 97, payload := [] } := by
  rw [ne_eq, decodeWithDocId_encodeWithDocId_iff]
  intro h
  have hascii : ∀ u ∈ List.replicate 65536 (97 : UInt16), u.toNat < 0x80 := by
    intro u hu
    rw [List.eq_of_mem_replicate hu]
    decide
  have hfits := h.fits
  rw [Utf8.length_encode_of_ascii hascii, List.length_replicate] at hfits
  exact lt_irrefl _ hfits

/-- A byte order mark at the beginning is lost, and a lone surrogate is replaced. -/
example : ¬IsFramable [0xfeff, 97] ∧ ¬IsFramable [0xd800] :=
  ⟨fun h => h.unmarked rfl, fun h => absurd h.wellFormed (by decide)⟩

end N8n
