import ObjectStorage.Http.Bridge
import ObjectStorage.Proofs.Http.Middleware

/-! # What passes the bridge

The bridge puts requests and responses together anew, header by header. A request comes to the executor as the
protocol made it. A response comes back with its status and its body, and with the values of each header that are
ASCII, in their order. A value that is text but not ASCII could be told to the protocol, and is not.
-/
namespace ObjectStorage.Http

variable {σ : Type}

namespace Header

def isAscii (value : List UInt8) : Bool := value.all (· < 128)

def isText (value : List UInt8) : Bool := value.toByteArray.validateUTF8

theorem utf8EncodeChar_ofNat {b : UInt8} (h : b < 128) : String.utf8EncodeChar (Char.ofNat b.toNat) = [b] := by
  have hb : b.toNat < 128 := UInt8.lt_iff_toNat_lt.1 h
  have hcode : (Char.ofNat b.toNat).val.toNat = b.toNat := by
    rw [Char.ofNat, dif_pos (Or.inl (by omega))]
    rfl
  have hone : b.toNat ≤ 127 := by omega
  simp [String.utf8EncodeChar, hcode, hone]

theorem isText_of_isAscii {value : List UInt8} (h : isAscii value = true) : isText value = true := by
  rw [isText, ByteArray.validateUTF8_eq_true_iff]
  refine .intro (value.map fun b => Char.ofNat b.toNat) (congrArg List.toByteArray ?_)
  rw [List.flatMap_map]
  induction value with
  | nil => rfl
  | cons b value ih =>
    simp only [isAscii, List.all_cons, Bool.and_eq_true, decide_eq_true_eq] at h ih
    rw [List.flatMap_cons, utf8EncodeChar_ofNat h.1, ← ih h.2]
    rfl

theorem isVisible_eq_isAscii {h : Header} (hlegal : h.value.all isLegalByte = true) :
    h.isVisible = isAscii h.value := by
  have hbyte (b : UInt8) (hb : isLegalByte b = true) : ((32 ≤ b && b < 127) || b == 9) = decide (b < 128) := by
    simp only [isLegalByte] at hb
    grind
  rw [List.all_eq_true] at hlegal
  rw [isVisible, isAscii, Bool.eq_iff_iff, List.all_eq_true, List.all_eq_true]
  constructor
  · intro hall b hb
    rw [← hbyte b (hlegal b hb)]
    exact hall b hb
  · intro hall b hb
    rw [hbyte b (hlegal b hb)]
    exact hall b hb

end Header

namespace Headers

theorem valuesOf_filter (p : List UInt8 → Bool) (name : String) (hs : Headers) :
    valuesOf name (hs.filter fun h => p h.value) = (valuesOf name hs).filter p := by
  rw [valuesOf, valuesOf, List.filter_map, List.filter_filter, List.filter_filter]
  refine congrArg _ (List.filter_congr fun h _ => ?_)
  exact Bool.and_comm _ _

end Headers

namespace Bridge

theorem foldlM_takeUp (hs : Headers) (r : Request) : hs.foldlM takeUp r =
    if hs.all fun h => h.value.all Header.isLegalByte then .ok { r with headers := r.headers ++ hs }
    else .error .user := by
  induction hs generalizing r with
  | nil =>
    rw [List.append_nil]
    rfl
  | cons h hs ih =>
    rw [List.foldlM_cons, List.all_cons, takeUp]
    cases hlegal : h.value.all Header.isLegalByte with
    | false => rfl
    | true =>
      refine (ih _).trans ?_
      simp [Headers.append]

theorem request_eq_ok_iff {o : Outgoing} {r : Request} : request o = .ok r ↔
    o.payload = .buffered r.body ∧ (∀ h ∈ o.headers, h.value.all Header.isLegalByte = true) ∧
      r = { method := o.method, uri := o.uri, headers := o.headers, body := r.body } := by
  unfold request
  cases o.payload with
  | streamed => simp
  | buffered data =>
    simp only [foldlM_takeUp, List.nil_append]
    constructor
    · intro h
      split at h
      · next hlegal =>
        obtain rfl := Except.ok.inj h
        exact ⟨rfl, List.all_eq_true.1 hlegal, rfl⟩
      · cases h
    · rintro ⟨hbody, hlegal, hr⟩
      obtain rfl := Payload.buffered.inj hbody
      rw [if_pos (List.all_eq_true.2 hlegal), ← hr]

theorem foldl_handOn (hs : Headers) (r : Response) :
    hs.foldl handOn r = { r with headers := r.headers ++ hs.filter Header.isVisible } := by
  induction hs generalizing r with
  | nil => simp
  | cons h hs ih =>
    rw [List.foldl_cons, ih, handOn]
    cases hvisible : h.isVisible with
    | false => simp [hvisible]
    | true => simp [hvisible, Headers.append]

theorem response_of_isStatus {r : Response} (h : isStatus r.status = true) :
    response r = .ok { r with headers := r.headers.filter Header.isVisible } := by
  rw [response, if_pos h, foldl_handOn, List.nil_append]

theorem valuesOf_visible {r : Response} (hlegal : ∀ h ∈ r.headers, h.value.all Header.isLegalByte = true)
    (name : String) : Headers.valuesOf name (r.headers.filter Header.isVisible) =
      (r.headers.valuesOf name).filter Header.isAscii := by
  rw [← Headers.valuesOf_filter]
  exact congrArg _ (List.filter_congr fun h hh => Header.isVisible_eq_isAscii (hlegal h hh))

def told : Outcome → Except ConnectorError Response
  | .ok answer => response answer
  | .error e => .error (.ofTransport e)

theorem run_send (next : Executor σ) {o : Outgoing} {r : Request} (haccepts : request o = .ok r) (now : Nat) (s : σ) :
    (send next o).run now s =
      (told ((next r).run now s).1, ((next r).run now s).2.1, ((next r).run now s).2.2) := by
  simp only [send, haccepts, Timed.bind_eq, Timed.run_bind]
  cases ((next r).run now s).1 <;> rfl

end Bridge

def Executor.noted (e : Executor σ) : Executor (Recorded (Request × Outcome) σ) := fun r => do
  let answer ← e.recorded r
  Timed.modify fun m => { m with notes := m.notes ++ [(r, answer)] }
  return answer

theorem Executor.run_noted (e : Executor σ) (r : Request) (now : Nat) (m : Recorded (Request × Outcome) σ) :
    (e.noted r).run now m = (((e r).run now m.store).1, ((e r).run now m.store).2.1,
      ⟨((e r).run now m.store).2.2, m.notes ++ [(r, ((e r).run now m.store).1)]⟩) := by
  have hrecorded : (e.recorded r).run now m = _ := Recorded.run_within (e r) now m
  simp only [noted, Timed.bind_eq, Timed.run_bind, hrecorded]
  rfl

/-- Values in ASCII are all the values that are text exactly if each text among them is ASCII. -/
theorem Header.filter_isAscii_eq_iff (values : List (List UInt8)) :
    values.filter isAscii = values.filter isText ↔ ∀ v ∈ values, isText v = true → isAscii v = true := by
  constructor
  · intro heq v hv htext
    have hmem : v ∈ values.filter isText := List.mem_filter.2 ⟨hv, htext⟩
    rw [← heq] at hmem
    exact (List.mem_filter.1 hmem).2
  · intro h
    refine List.filter_congr fun v hv => ?_
    exact Bool.eq_iff_iff.2 ⟨isText_of_isAscii, h v hv⟩

/-- What passes the bridge, around any executor. A request is received once, with the same method, URI and body and
the same values of each header. An answer comes back with its status and body, and with the values of each header
that are ASCII: a text with other characters is left out. -/
theorem Bridge.send_passes (next : Executor σ) (o : Outgoing) (r : Request) (haccepts : Bridge.request o = .ok r)
    (now : Nat) (m : Recorded (Request × Outcome) σ) :
    (o.payload = .buffered r.body ∧ r.method = o.method ∧ r.uri = o.uri ∧
      ∀ name, r.headers.valuesOf name = o.headers.valuesOf name) ∧
    let answered := (next r).run now m.store
    ∃ outcome, (Bridge.send next.noted o).run now m =
        (outcome, answered.2.1, ⟨answered.2.2, m.notes ++ [(r, answered.1)]⟩) ∧
      ∀ received : Response, answered.1 = .ok received → Bridge.isStatus received.status = true →
        (∀ h ∈ received.headers, h.value.all Header.isLegalByte = true) →
        ∃ seen, outcome = .ok seen ∧ seen.status = received.status ∧ seen.body = received.body ∧
          ∀ name, seen.headers.valuesOf name = (received.headers.valuesOf name).filter Header.isAscii ∧
            (∀ v ∈ seen.headers.valuesOf name, Header.isText v = true) ∧
            (seen.headers.valuesOf name = (received.headers.valuesOf name).filter Header.isText ↔
              ∀ v ∈ received.headers.valuesOf name, Header.isText v = true → Header.isAscii v = true) := by
  obtain ⟨hbody, -, hr⟩ := Bridge.request_eq_ok_iff.1 haccepts
  refine ⟨⟨hbody, congrArg Request.method hr, congrArg Request.uri hr,
    fun name => congrArg (Headers.valuesOf name ∘ Request.headers) hr⟩, ?_⟩
  intro answered
  have hsent := Bridge.run_send next.noted haccepts now m
  rw [next.run_noted] at hsent
  refine ⟨Bridge.told answered.1, hsent, ?_⟩
  intro received hanswer hstatus hlegal
  rw [hanswer]
  refine ⟨_, Bridge.response_of_isStatus hstatus, rfl, rfl, fun name => ?_⟩
  have hvalues := Bridge.valuesOf_visible hlegal name
  refine ⟨hvalues, ?_, ?_⟩
  · intro v hv
    rw [hvalues] at hv
    exact Header.isText_of_isAscii (List.mem_filter.1 hv).2
  · rw [hvalues]
    exact Header.filter_isAscii_eq_iff _

/-- A header with two values goes out and comes back; of the response a value is left out that is no text. -/
theorem Bridge.send_passes_repeated :
    let o : Outgoing :=
      { method := "PUT", uri := { authority := some "h" }, payload := .buffered [1, 2]
        headers := [⟨"x-a", [97]⟩, ⟨"x-b", [98]⟩, ⟨"x-a", [0xc3, 0xa9]⟩] }
    let r : Request := { method := "PUT", uri := { authority := some "h" }, body := [1, 2], headers := o.headers }
    let received : Response :=
      { status := 404, body := [3], headers := [⟨"x-a", [97]⟩, ⟨"x-a", [0xff]⟩, ⟨"x-b", [98]⟩, ⟨"x-a", [99]⟩] }
    Bridge.request o = .ok r ∧ Bridge.isStatus received.status = true ∧
    (∀ h ∈ received.headers, h.value.all Header.isLegalByte = true) ∧
    r.headers.valuesOf "x-a" = [[97], [0xc3, 0xa9]] ∧ ∃ seen script,
      (Bridge.send (Executor.noted Script.executor) o).run 0 { store := { answers := [.ok received] } } =
        (.ok seen, 0, ⟨script, [(r, .ok received)]⟩) ∧
      seen.status = 404 ∧ seen.body = [3] ∧
      seen.headers.valuesOf "x-a" = (received.headers.valuesOf "x-a").filter Header.isText ∧
      seen.headers.valuesOf "x-a" = [[97], [99]] := by
  intro o r received
  have haccepts : Bridge.request o = .ok r := rfl
  have hlegal : ∀ h ∈ received.headers, h.value.all Header.isLegalByte = true := by decide
  obtain ⟨⟨-, -, -, hsent⟩, outcome, hrun, hpasses⟩ :=
    Bridge.send_passes Script.executor o r haccepts 0 { store := { answers := [.ok received] } }
  obtain ⟨seen, rfl, hstatus, hbody, hvalues⟩ := hpasses received rfl rfl hlegal
  obtain ⟨hascii, -, htexts⟩ := hvalues "x-a"
  refine ⟨haccepts, rfl, hlegal, hsent "x-a", seen, _, hrun, hstatus, hbody, htexts.2 (by decide), ?_⟩
  rw [hascii]
  decide

/-- A value that is text but not ASCII is left out of a response. -/
theorem Bridge.send_accent :
    let received : Response := { headers := [⟨"x-amz-meta-name", [0xc3, 0xa9]⟩] }
    ∃ seen script,
      (Bridge.send Script.executor { uri := {} }).run 0 { answers := [.ok received] } = (.ok seen, 0, script) ∧
      seen.headers.valuesOf "x-amz-meta-name" = [] ∧
      (received.headers.valuesOf "x-amz-meta-name").filter Header.isText = [[0xc3, 0xa9]] := by
  exact ⟨_, _, rfl, rfl, by decide⟩

end ObjectStorage.Http
