import PeerClaw.Encoding
import PeerClaw.Lib.Separated

/-!
# Gossip messages of the crew task market

The offers, claims and results of `crew/p2p.rs`, and the bytes that their
signatures are over: a tag for the kind, and the fields with a NUL between any
two of them.  A field may hold any text, and a NUL in it is not escaped.

* `bound_iff` — the bytes of a message belong to no other message exactly when
  no text of it contains a NUL.
* `shifted_offer` — two offers with the same bytes.
-/

namespace PeerClaw

open Lib Lib.Separated

/-! ## The messages -/

structure CrewTaskOffer where
  runId : String
  taskId : String
  podId : String
  orchestratorPeer : String
  modelHint : String
  summary : String
  expiresAtMs : UInt64
  /-- Ed25519 over the signable bytes. -/
  signature : List UInt8
  deriving DecidableEq

structure CrewTaskClaim where
  offerRunId : String
  offerTaskId : String
  workerPeer : String
  signature : List UInt8
  deriving DecidableEq

structure CrewTaskResult where
  runId : String
  taskId : String
  workerPeer : String
  outputSummary : String
  success : Bool
  signature : List UInt8
  deriving DecidableEq

/-- `CrewTaskOffer::signable_bytes`. -/
def CrewTaskOffer.signableBytes (m : CrewTaskOffer) : List UInt8 :=
  utf8 "peerclaw:crew_offer:v1:" ++ utf8 m.runId ++ [0] ++ utf8 m.taskId ++ [0] ++
    utf8 m.podId ++ [0] ++ utf8 m.orchestratorPeer ++ [0] ++ utf8 m.modelHint ++ [0] ++
    utf8 m.summary ++ [0] ++ utf8 (toString m.expiresAtMs)

/-- `CrewTaskClaim::signable_bytes`. -/
def CrewTaskClaim.signableBytes (m : CrewTaskClaim) : List UInt8 :=
  utf8 "peerclaw:crew_claim:v1:" ++ utf8 m.offerRunId ++ [0] ++ utf8 m.offerTaskId ++ [0] ++
    utf8 m.workerPeer

/-- `CrewTaskResult::signable_bytes`. -/
def CrewTaskResult.signableBytes (m : CrewTaskResult) : List UInt8 :=
  utf8 "peerclaw:crew_result:v1:" ++ utf8 m.runId ++ [0] ++ utf8 m.taskId ++ [0] ++
    utf8 m.workerPeer ++ [0] ++ utf8 m.outputSummary ++ [0] ++
    utf8 (if m.success then "1" else "0")

/-- A message of the market. -/
inductive CrewMessage
  | offer (m : CrewTaskOffer)
  | claim (m : CrewTaskClaim)
  | result (m : CrewTaskResult)
  deriving DecidableEq

namespace CrewMessage

/-- The bytes that the signature of a message is over. -/
def signableBytes : CrewMessage → List UInt8
  | .offer m => m.signableBytes
  | .claim m => m.signableBytes
  | .result m => m.signableBytes

/-- The kind of a message and every field of it but the signature. -/
def unsigned : CrewMessage → CrewMessage
  | .offer m => .offer { m with signature := [] }
  | .claim m => .claim { m with signature := [] }
  | .result m => .result { m with signature := [] }

/-- The bytes of the message are those of no other message. -/
def Bound (m : CrewMessage) : Prop :=
  ∀ m' : CrewMessage, m'.signableBytes = m.signableBytes → m'.unsigned = m.unsigned

/-! ## The bytes as joined texts -/

/-- What the bytes of each kind begin with. -/
def tag : CrewMessage → String
  | .offer _ => "peerclaw:crew_offer:v1:"
  | .claim _ => "peerclaw:crew_claim:v1:"
  | .result _ => "peerclaw:crew_result:v1:"

/-- The fields that hold any text. -/
def texts : CrewMessage → List String
  | .offer m => [m.runId, m.taskId, m.podId, m.orchestratorPeer, m.modelHint, m.summary]
  | .claim m => [m.offerRunId, m.offerTaskId, m.workerPeer]
  | .result m => [m.runId, m.taskId, m.workerPeer, m.outputSummary]

/-- The field that comes after the texts. -/
def rest : CrewMessage → List String
  | .offer m => [toString m.expiresAtMs]
  | .claim _ => []
  | .result m => [if m.success then "1" else "0"]

/-- No text of the message contains a NUL. -/
def NulFree (m : CrewMessage) : Prop := ∀ t ∈ m.texts, '\x00' ∉ t.toList

instance : DecidablePred NulFree := fun m =>
  inferInstanceAs (Decidable (∀ t ∈ m.texts, '\x00' ∉ t.toList))

/-- The characters of the parts of a message, joined. -/
def joinedTexts (m : CrewMessage) : List Char :=
  joined '\x00' ((m.texts ++ m.rest).map String.toList)

theorem signableBytes_eq (m : CrewMessage) :
    m.signableBytes = Utf8.encode (m.tag.toList ++ m.joinedTexts) := by
  have hnul : ∀ cs : List Char, Utf8.encode ('\x00' :: cs) = 0 :: Utf8.encode cs := by
    intro cs
    rfl
  cases m <;>
    simp only [signableBytes, CrewTaskOffer.signableBytes, CrewTaskClaim.signableBytes,
      CrewTaskResult.signableBytes, tag, joinedTexts, texts, rest, List.cons_append,
      List.nil_append, List.map_cons, List.map_nil, joined_cons_cons, joined_singleton,
      utf8_eq_encode_toList, hnul, Utf8.encode_append, List.append_assoc]

theorem tag_eq {m m' : CrewMessage} {p q : List Char}
    (h : m.tag.toList ++ p = m'.tag.toList ++ q) :
    m.tag = m'.tag ∧ p = q := by
  have hkind : m.tag.toList ++ p = m'.tag.toList ++ q → m.tag = m'.tag := by
    cases m <;> cases m' <;> simp [tag]
  have htag := hkind h
  rw [htag] at h
  exact ⟨htag, List.append_cancel_left h⟩

theorem rest_free (m : CrewMessage) : Free '\x00' (m.rest.map String.toList) := by
  cases m with
  | offer m =>
      intro p hp
      obtain rfl : p = (toString m.expiresAtMs).toList := by simpa [rest] using hp
      intro hnul
      have hdigit := Nat.isDigit_of_mem_toDigits (by decide) (by decide)
        (Nat.toList_repr (n := m.expiresAtMs.toNat) ▸ hnul)
      exact absurd hdigit (by decide)
  | claim m => intro p hp; cases hp
  | result m =>
      intro p hp
      obtain rfl : p = (if m.success then "1" else "0").toList := by simpa [rest] using hp
      cases m.success <;> decide

/-! ## What the bytes determine -/

section Determined

variable {m m' : CrewMessage}

theorem length_eq (htag : m.tag = m'.tag) :
    m.texts.length = m'.texts.length ∧ m.rest.length = m'.rest.length := by
  cases m <;> cases m' <;> simp_all [tag, texts, rest]

theorem unsigned_eq (htag : m.tag = m'.tag) (htexts : m.texts = m'.texts)
    (hrest : m.rest = m'.rest) : m.unsigned = m'.unsigned := by
  cases m with
  | offer m =>
      cases m' with
      | offer m' =>
          have hexpires := toString_injective (List.cons.inj hrest).1
          simp_all [texts, unsigned]
      | _ => simp [tag] at htag
  | claim m =>
      cases m' with
      | claim m' => simp_all [texts, unsigned]
      | _ => simp [tag] at htag
  | result m =>
      cases m' with
      | result m' =>
          have hsuccess : m.success = m'.success := by
            cases hm : m.success <;> cases hm' : m'.success <;> simp_all [rest]
          simp_all [texts, unsigned]
      | _ => simp [tag] at htag

theorem texts_eq_of_unsigned (h : m.unsigned = m'.unsigned) : m.texts = m'.texts := by
  cases m <;> cases m' <;> simp_all [unsigned, texts]

theorem exists_texts (m : CrewMessage) {qs : List String} (hlen : qs.length = m.texts.length) :
    ∃ m' : CrewMessage, m'.tag = m.tag ∧ m'.texts = qs ∧ m'.rest = m.rest := by
  cases m with
  | offer m =>
      rcases qs with _ | ⟨a, _ | ⟨b, _ | ⟨c, _ | ⟨d, _ | ⟨e, _ | ⟨f, _ | ⟨g, qs⟩⟩⟩⟩⟩⟩⟩ <;>
        simp [texts] at hlen
      exact ⟨.offer ⟨a, b, c, d, e, f, m.expiresAtMs, []⟩, rfl, rfl, rfl⟩
  | claim m =>
      obtain ⟨a, b, c, rfl⟩ := List.length_eq_three.1 hlen
      exact ⟨.claim ⟨a, b, c, []⟩, rfl, rfl, rfl⟩
  | result m =>
      rcases qs with _ | ⟨a, _ | ⟨b, _ | ⟨c, _ | ⟨d, _ | ⟨e, qs⟩⟩⟩⟩⟩ <;> simp [texts] at hlen
      exact ⟨.result ⟨a, b, c, d, m.success, []⟩, rfl, rfl, rfl⟩

theorem free_texts_iff : Free '\x00' (m.texts.map String.toList) ↔ m.NulFree := by
  simp [Separated.Free, NulFree]

end Determined

/-- **What a signature is over**: the bytes of a message are those of no other message exactly
when none of its texts contains a NUL. -/
theorem bound_iff (m : CrewMessage) : m.Bound ↔ m.NulFree := by
  constructor
  · intro hbound
    by_contra hnul
    -- a text with a NUL is cut there, and its neighbour takes one side
    have hlen : 2 ≤ (m.texts.map String.toList).length := by
      cases m <;> simp [texts]
    obtain ⟨qs, hqs, hne, hjoined⟩ := exists_shifted hlen (fun h => hnul (free_texts_iff.1 h))
    have hlength : (qs.map String.ofList).length = m.texts.length := by simpa using hqs
    obtain ⟨m', htag, htexts, hrest⟩ := exists_texts m hlength
    have hmap : m'.texts.map String.toList = qs := by
      simp [htexts, Function.comp_def]
    have hbytes : m'.signableBytes = m.signableBytes := by
      have hnil : m.texts.map String.toList ≠ [] := List.ne_nil_of_length_pos (by omega)
      have hqnil : qs ≠ [] := List.ne_nil_of_length_pos (by omega)
      rw [signableBytes_eq, signableBytes_eq, htag, joinedTexts, joinedTexts, List.map_append,
        List.map_append, hmap, hrest, joined_append_congr _ hqnil hnil hjoined]
    apply hne
    rw [← hmap, texts_eq_of_unsigned (hbound m' hbytes)]
  · intro hfree m' hbytes
    rw [signableBytes_eq, signableBytes_eq] at hbytes
    obtain ⟨htag, hjoined⟩ := tag_eq (Utf8.encode_injective hbytes)
    obtain ⟨hltexts, hlrest⟩ := length_eq htag
    have hparts : (m.texts ++ m.rest).map String.toList =
        (m'.texts ++ m'.rest).map String.toList := by
      refine joined_inj ?_ ?_ hjoined.symm
      · intro p hp
        rw [List.map_append, List.mem_append] at hp
        rcases hp with hp | hp
        · exact free_texts_iff.2 hfree p hp
        · exact rest_free m p hp
      · simp [hltexts, hlrest]
    have happend : m'.texts ++ m'.rest = m.texts ++ m.rest :=
      (List.map_injective_iff.2 (fun _ _ => String.toList_inj.1) hparts).symm
    obtain ⟨htexts, hrest⟩ := List.append_inj happend hltexts
    exact unsigned_eq htag htexts hrest

section Example

private def offerOf (runId taskId : String) : CrewTaskOffer :=
  ⟨runId, taskId, "", "12D3KooW", "", "summarise", 1700000000000, []⟩

/-- **Two offers with the same bytes**, for different runs and tasks. -/
theorem shifted_offer :
    (CrewMessage.offer (offerOf "r1\x00t" "1")).signableBytes =
        (CrewMessage.offer (offerOf "r1" "t\x001")).signableBytes ∧
      (CrewMessage.offer (offerOf "r1\x00t" "1")).unsigned ≠
        (CrewMessage.offer (offerOf "r1" "t\x001")).unsigned := by
  constructor
  · simp only [signableBytes_eq]
    decide
  · decide

end Example

end CrewMessage
end PeerClaw
