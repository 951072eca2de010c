import RedisCore.Cluster.Bus
import RedisCore.Lib.LittleEndian
import RedisCore.Lib.Buffer

set_option autoImplicit false

namespace RedisCore.Bus

open LittleEndian

-- A field of a packet in network byte order; none is a read behind the end of rcvbuf.
def ntoh (width : Nat) (rcvbuf : Bytes) (offset : Nat) : Option Nat :=
  (Buffer.read rcvbuf offset width).map fun field => decode field.reverse

def ntohs : Bytes → Nat → Option Nat := ntoh 2

def ntohl : Bytes → Nat → Option Nat := ntoh 4

inductive MsgType where
  | ping
  | pong
  | meet
  | fail
  | publish
  | failoverAuthRequest
  | failoverAuthAck
  | update
  | mfstart
  deriving DecidableEq

def MsgType.ofCode : Nat → Option MsgType
  | 0 => some .ping
  | 1 => some .pong
  | 2 => some .meet
  | 3 => some .fail
  | 4 => some .publish
  | 5 => some .failoverAuthRequest
  | 6 => some .failoverAuthAck
  | 7 => some .update
  | 8 => some .mfstart
  | _ => none

def clusterProtoVer : Nat := 1

-- The sizes of clusterMsgDataGossip, clusterMsgDataFail, clusterMsgDataPublish and clusterMsgDataUpdate.
def gossipLength : Nat := 104

def failLength : Nat := 40

def publishLength : Nat := 16

def updateLength : Nat := 2096

-- explen is a uint32_t.
def explen (data : Nat) : Nat := (headerLength + data) % 2 ^ 32

def msgType (rcvbuf : Bytes) : Option MsgType := (ntohs rcvbuf 12).bind MsgType.ofCode

-- The sanity checks of clusterProcessPacket; false is a packet that is not processed.
def sanityChecks (rcvbuf : Bytes) : Option Bool := do
  let totlen ← ntohl rcvbuf 4
  let type ← ntohs rcvbuf 12
  if totlen < 16 ∨ rcvbuf.length < totlen then return false
  if (← ntohs rcvbuf 8) ≠ clusterProtoVer then return false
  match MsgType.ofCode type with
  | some .ping | some .pong | some .meet => return totlen = explen (gossipLength * (← ntohs rcvbuf 14))
  | some .fail => return totlen = explen failLength
  | some .publish =>
    let channelLen ← ntohl rcvbuf headerLength
    let messageLen ← ntohl rcvbuf (headerLength + 4)
    return totlen = explen (publishLength - 8 + channelLen + messageLen)
  | some .failoverAuthRequest | some .failoverAuthAck | some .mfstart => return totlen = explen 0
  | some .update => return totlen = explen updateLength
  | none => return true

def fixedLength : MsgType → Nat
  | .fail => headerLength + failLength
  | .publish => headerLength + (publishLength - 8)
  | .update => headerLength + updateLength
  | _ => headerLength

-- The gossip entries, or the bytes of the channel and of the message.
def variableLength (rcvbuf : Bytes) : MsgType → Option Nat
  | .ping | .pong | .meet => (ntohs rcvbuf 14).map (gossipLength * ·)
  | .publish => do return (← ntohl rcvbuf headerLength) + (← ntohl rcvbuf (headerLength + 4))
  | _ => some 0

theorem ntoh_lt {width : Nat} {rcvbuf : Bytes} {offset n : Nat} (field : ntoh width rcvbuf offset = some n) : n < 256 ^ width := by
  obtain ⟨bytes, found, rfl⟩ := Option.map_eq_some_iff.mp field
  unfold Buffer.read at found
  split at found
  · cases found
    exact (decode_lt _).trans_le (Nat.pow_le_pow_right (by decide) (by simp))
  · cases found

theorem explen_of_lt {data : Nat} (fits : headerLength + data < 2 ^ 32) : explen data = headerLength + data :=
  Nat.mod_eq_of_lt fits

def LengthExact (rcvbuf : Bytes) (type : MsgType) : Prop :=
  ∃ n, variableLength rcvbuf type = some n ∧ ntohl rcvbuf 4 = some (fixedLength type + n) ∧ fixedLength type + n ≤ rcvbuf.length

theorem length_exact {rcvbuf : Bytes} {type : MsgType} (typed : msgType rcvbuf = some type)
    (passed : sanityChecks rcvbuf = some true)
    (fits : type = .publish → ∀ n, variableLength rcvbuf type = some n → fixedLength type + n < 2 ^ 32) : LengthExact rcvbuf type := by
  obtain ⟨code, coded, typed⟩ := Option.bind_eq_some_iff.mp typed
  rw [sanityChecks, coded] at passed
  obtain ⟨totlen, total, passed⟩ := Option.bind_eq_some_iff.mp passed
  rw [some_bind] at passed
  split_ifs at passed with outside
  · cases passed
  obtain ⟨version, -, passed⟩ := Option.bind_eq_some_iff.mp passed
  split_ifs at passed
  · cases passed
  have within : totlen ≤ rcvbuf.length := by omega
  rw [LengthExact, total]
  suffices exact_length : ∃ n, variableLength rcvbuf type = some n ∧ totlen = fixedLength type + n by
    obtain ⟨n, declared, rfl⟩ := exact_length
    exact ⟨n, declared, rfl, within⟩
  rw [typed] at passed
  cases type with
  | ping | pong | meet =>
    obtain ⟨count, counted, same⟩ := Option.bind_eq_some_iff.mp passed
    have small := ntoh_lt counted
    rw [explen_of_lt (by unfold headerLength gossipLength; omega)] at same
    exact ⟨gossipLength * count, by rw [variableLength, counted]; rfl, by simpa [fixedLength] using same⟩
  | fail | failoverAuthRequest | failoverAuthAck | update | mfstart =>
    exact ⟨0, rfl, of_decide_eq_true (Option.some_inj.mp passed)⟩
  | publish =>
    obtain ⟨channelLen, channel, passed⟩ := Option.bind_eq_some_iff.mp passed
    obtain ⟨messageLen, message, same⟩ := Option.bind_eq_some_iff.mp passed
    have declared : variableLength rcvbuf .publish = some (channelLen + messageLen) := by
      rw [variableLength, channel, message]
      rfl
    have small := fits rfl _ declared
    rw [fixedLength, Nat.add_assoc, ← Nat.add_assoc (publishLength - 8)] at small
    rw [explen_of_lt small] at same
    refine ⟨_, declared, ?_⟩
    rw [fixedLength, of_decide_eq_true (Option.some_inj.mp same)]
    omega

-- totlen is a field of 32 bits, so it cannot declare a longer packet.
theorem packet_length_exact (rcvbuf : Bytes) (type : MsgType) (typed : msgType rcvbuf = some type)
    (passed : sanityChecks rcvbuf = some true) :
    LengthExact rcvbuf type ↔ (type = .publish → ∀ n, variableLength rcvbuf type = some n → fixedLength type + n < 2 ^ 32) := by
  refine ⟨?_, length_exact typed passed⟩
  rintro ⟨n, declared, total, -⟩ - m same
  cases declared.symm.trans same
  exact ntoh_lt total

-- A PUBLISH of the given length, whose header is otherwise zero.
def publishPacket (totlen channelLen messageLen : Nat) (bulkData : Bytes) : Bytes :=
  [82, 67, 109, 98] ++ (encode 4 totlen).reverse ++ [0, 1, 0, 0, 0, 4, 0, 0] ++ List.replicate 2240 0 ++
    (encode 4 channelLen).reverse ++ (encode 4 messageLen).reverse ++ bulkData

theorem publish_length_exact : LengthExact (publishPacket 2267 1 2 [99, 104, 105]) .publish := by
  have declared : variableLength (publishPacket 2267 1 2 [99, 104, 105]) .publish = some 3 := by decide +kernel
  refine (packet_length_exact _ _ (by decide +kernel) (by decide +kernel)).mpr fun _ n same => ?_
  rw [declared, Option.some_inj] at same
  subst same
  decide

-- A channel of 2^32 - 1 bytes and a message of one byte in a packet without either.
theorem publish_length_wraps : msgType (publishPacket 2264 (2 ^ 32 - 1) 1 []) = some .publish ∧
    sanityChecks (publishPacket 2264 (2 ^ 32 - 1) 1 []) = some true ∧
      variableLength (publishPacket 2264 (2 ^ 32 - 1) 1 []) .publish = some (2 ^ 32) ∧
        ntohl (publishPacket 2264 (2 ^ 32 - 1) 1 []) 4 = some 2264 := by
  decide +kernel

end RedisCore.Bus
