import Graviton.Base.IpText

/-!
# `EthHandler`: the public address

`GetPublicIp` of `libs/service/ethhandler.cpp`. The results of `socket`, `connect`, `send` and
`recv` are parameters.

* `getPublicIp_iff`: when the result flag says if the address was stored, and the one that was
  stored is that of the last line of the response.
-/

namespace EthHandler

open Lib

/-- `RCVBUFSIZE`. -/
def rcvBufSize : Nat := 1024

def request : Str :=
  "GET / HTTP/1.1\r\nHost: api.ipify.org\r\nConnection: close\r\n\r\n".toList

/-- What the calls of `GetPublicIp` come to; `recv` fails, or has these bytes to give. -/
structure Calls where
  socket : Int
  connect : Int
  send : Int
  recv : Option Str

/-- What `recv` stores: as much as it was asked for, at most. -/
def Calls.received (calls : Calls) : Str := (calls.recv.getD []).take (rcvBufSize - 1)

def Calls.bytesRcvd (calls : Calls) : Int :=
  if calls.recv.isSome then calls.received.length else -1

/-- What `GetPublicIp` returns, and what it stores in `retIp`, if it does. -/
structure PublicIp where
  status : Bool
  stored : Option Ip
  deriving DecidableEq

/-- The text the address is scanned from. -/
def ipText (recvBuffer : Str) : Str :=
  let ipstr := cstr recvBuffer
  ipstr.drop (match findLast '\n' ipstr with | some pos => pos + 1 | none => 0)

/-- `GetPublicIp`. -/
def getPublicIp (calls : Calls) : PublicIp :=
  let status := !decide (calls.socket < 0)
  let status := status && !decide (calls.connect < 0)
  let status := status && decide (calls.send = request.length)
  if status then
    let status := !decide (calls.bytesRcvd ≤ 0)
    if status ∧ 0 < calls.bytesRcvd ∧ calls.bytesRcvd < rcvBufSize - 1 then
      ⟨status, some (Ip.ofString (ipText (calls.received ++ ['\x00']))).copy⟩
    else ⟨status, none⟩
  else ⟨status, none⟩

/-- Every step succeeds, and the response is not empty. -/
structure Calls.Succeed (calls : Calls) : Prop where
  socket : 0 ≤ calls.socket
  connect : 0 ≤ calls.connect
  send : calls.send = request.length
  recv : calls.received ≠ []

/-- The flag is set exactly when `retIp` is the address after the last newline of the response;
otherwise `retIp` is left alone. -/
structure Truthful (calls : Calls) (r : PublicIp) : Prop where
  stored : r.status = true ↔ r.stored = some (Ip.ofString (afterLast '\n' calls.received))
  unchanged : r.status = false → r.stored = none

/-- A response that is read to its end, and as text: there is room for its terminator, and none
before the last newline that would make another octet the first. -/
structure Readable (received : Str) : Prop where
  room : received.length < rcvBufSize - 1
  text : Ip.strToIpt (afterLast '\n' (cstr received)) = Ip.strToIpt (afterLast '\n' received)

theorem ipText_eq (received : Str) :
    ipText (received ++ ['\x00']) = afterLast '\n' (cstr received) := by
  rw [ipText, cstr_append_nul]
  exact drop_findLast '\n' _

/-- A terminator after the last newline does not matter. -/
theorem readable_of_nul {received : Str} (h : received.length < rcvBufSize - 1)
    (hnul : ∀ a b, received = a ++ '\n' :: b → '\x00' ∉ a) : Readable received := by
  refine ⟨h, ?_⟩
  have hcstr : ∀ s : Str, Ip.strToIpt (cstr s) = Ip.strToIpt s := fun s =>
    Vector.toList_inj.1 <| by
      rw [Ip.strToIpt_toList, Ip.strToIpt_toList, cstr_eq_self_iff.2 nul_not_mem_cstr]
  cases hk : findLast '\n' received with
  | none =>
    have hnot := findLast_eq_none hk
    have hnot' : '\n' ∉ cstr received := fun hm => hnot ((List.takeWhile_sublist _).subset hm)
    rw [afterLast_of_not_mem hnot, afterLast_of_not_mem hnot', hcstr]
  | some k =>
    obtain ⟨a, b, rfl, -, hb⟩ := findLast_eq_some hk
    have hnul' : '\x00' ∉ a ++ ['\n'] := by
      rw [List.mem_append, not_or]
      exact ⟨hnul a b rfl, by decide⟩
    have hb' : '\n' ∉ cstr b := fun hm => hb ((List.takeWhile_sublist _).subset hm)
    rw [afterLast_append a hb, List.append_cons, cstr_append_of_not_mem hnul', ← List.append_cons,
      afterLast_append a hb', hcstr]

section
variable {calls : Calls}

/-- The flag before `recv`. -/
theorem status_eq : (!decide (calls.socket < 0) && !decide (calls.connect < 0) &&
    decide (calls.send = request.length)) =
      decide (0 ≤ calls.socket ∧ 0 ≤ calls.connect ∧ calls.send = request.length) := by
  rw [Bool.eq_iff_iff]
  simp only [Bool.and_eq_true, Bool.not_eq_true', decide_eq_false_iff_not, decide_eq_true_eq,
    Int.not_lt, and_assoc]

theorem bytesRcvd_pos_iff : 0 < calls.bytesRcvd ↔ calls.received ≠ [] := by
  rw [Calls.bytesRcvd, Calls.received, List.ne_nil_iff_length_pos]
  cases calls.recv with
  | none => exact iff_of_false (by decide) (by decide)
  | some s => exact Int.natCast_pos

theorem getPublicIp_of_not (h : ¬calls.Succeed) : getPublicIp calls = ⟨false, none⟩ := by
  rw [getPublicIp, status_eq]
  dsimp only
  split
  · rename_i hsteps
    obtain ⟨hsocket, hconnect, hsend⟩ := of_decide_eq_true hsteps
    have hrecv : calls.bytesRcvd ≤ 0 :=
      Int.not_lt.1 fun hpos => h ⟨hsocket, hconnect, hsend, bytesRcvd_pos_iff.1 hpos⟩
    rw [decide_eq_true hrecv, if_neg fun hc => Bool.false_ne_true hc.1]
    rfl
  · rename_i hsteps
    rw [Bool.eq_false_of_not_eq_true hsteps]

theorem getPublicIp_of_succeed (h : calls.Succeed) : getPublicIp calls =
    if calls.received.length < rcvBufSize - 1 then
      ⟨true, some (Ip.ofString (afterLast '\n' (cstr calls.received)))⟩
    else ⟨true, none⟩ := by
  have hpos := bytesRcvd_pos_iff.2 h.recv
  have hbytes : calls.bytesRcvd = calls.received.length := by
    rw [Calls.bytesRcvd] at hpos ⊢
    split at hpos
    · rename_i hsome
      rw [if_pos hsome]
    · exact absurd hpos (by decide)
  rw [getPublicIp, status_eq, decide_eq_true ⟨h.socket, h.connect, h.send⟩]
  dsimp only
  rw [if_pos rfl, decide_eq_false (Int.not_le.2 hpos), ipText_eq, hbytes]
  by_cases hroom : calls.received.length < rcvBufSize - 1
  · rw [if_pos hroom, if_pos ⟨rfl, hbytes ▸ hpos, Int.ofNat_lt.2 hroom⟩]
    rfl
  · rw [if_neg hroom, if_neg fun hc => hroom (Int.ofNat_lt.1 hc.2.2)]
    rfl

end

/-- **When the flag tells the truth**: if a step fails, or the response is readable. -/
theorem getPublicIp_iff (calls : Calls) :
    Truthful calls (getPublicIp calls) ↔ (calls.Succeed → Readable calls.received) := by
  by_cases h : calls.Succeed
  · rw [getPublicIp_of_succeed h, forall_prop_of_true h]
    split
    · rename_i hroom
      constructor
      · intro ht
        have hip := Option.some.inj (ht.stored.1 rfl)
        exact ⟨hroom, congrArg Ip.u8 hip⟩
      · intro hr
        have hip : Ip.ofString (afterLast '\n' (cstr calls.received)) =
            Ip.ofString (afterLast '\n' calls.received) := congrArg (Ip.ofOctets · 0) hr.text
        exact ⟨iff_of_true rfl (congrArg some hip), fun hf => Bool.noConfusion hf⟩
    · rename_i hroom
      constructor
      · intro ht
        exact absurd (ht.stored.1 rfl) (by simp)
      · exact fun hr => absurd hr.room hroom
  · rw [getPublicIp_of_not h]
    exact iff_of_true ⟨iff_of_false Bool.false_ne_true (by simp), fun _ => rfl⟩
      fun hs => absurd hs h

/-- A response that fills the buffer: the flag is set, and nothing is stored. -/
theorem getPublicIp_full :
    let response := List.replicate 1011 'x' ++ "\n203.0.113.7".toList
    let r := getPublicIp ⟨3, 0, request.length, some response⟩
    response.length = 1023 ∧ r.status = true ∧ r.stored = none := by
  intro response r
  have hlen : response.length = 1023 := by
    rw [List.length_append, List.length_replicate]
    rfl
  have hreceived : (Calls.mk 3 0 request.length (some response)).received = response :=
    List.take_of_length_le hlen.le
  have hne : response ≠ [] := List.ne_nil_of_length_pos (by omega)
  have hs : (Calls.mk 3 0 request.length (some response)).Succeed :=
    ⟨by decide, by decide, rfl, by rwa [hreceived]⟩
  have hr : r = ⟨true, none⟩ := by
    have hfull : ¬response.length < rcvBufSize - 1 := by
      rw [hlen]
      decide
    show getPublicIp _ = _
    rw [getPublicIp_of_succeed hs, hreceived, if_neg hfull]
  rw [hr]
  exact ⟨hlen, rfl, rfl⟩

end EthHandler
