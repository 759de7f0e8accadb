import ElectrumStreamingClient.Protocol.ResponseDecoders
import ElectrumStreamingClient.Tracker.AnyOrder

/-!
# Responses with more in them

A server may send more than a client of an earlier version knows of. Whatever it adds to the objects
of its results, in which order it puts their members, and which of them it repeats, a run of the
tracker goes on as if it had not.
-/

namespace ElectrumStreamingClient

open Serde

/-- Values that are alike to a type are decoded to the same. -/
theorem Lenient.deserialize_owned {T : Type} [Deserialize T] [Lenient T] {v v' : Value}
    (h : Lenient.Alike T v v') :
    (Deserialize.deserialize v.owned : Except Error T) = Deserialize.deserialize v'.owned := by
  rw [← Lenient.decode_eq, ← Lenient.decode_eq]
  exact decoder.decode_owned h

variable [Bitcoin] {Obs : Type}

/-- The request is one whose response decodes the values alike. -/
def PendingRequest.Ignores (p : PendingRequest Obs) (v v' : Value) : Prop :=
  ∃ (Req : Type) (_ : RequestExt Req) (_ : Deserialize (Request.Response Req))
    (_ : Lenient (Request.Response Req)) (req : Req)
    (callback : Option (ResponseResult (Request.Response Req) → Obs)),
    p.IsFor req callback ∧ Lenient.Alike (Request.Response Req) v v'

/-- A request does the same with results that differ in what it ignores. -/
theorem PendingRequest.Ignores.handle_eq {p : PendingRequest Obs} {v v' : Value}
    (h : p.Ignores v v') : p.handle (.ok v.owned) = p.handle (.ok v'.owned) := by
  obtain ⟨Req, _, _, _, req, callback, ⟨-, hhandler⟩, halike⟩ := h
  rw [handle, handle, hhandler]
  -- the handler looks at a result only through the decoder
  cases callback <;>
    simp only [ElectrumStreamingClient.handler, Lenient.deserialize_owned halike]

/-- The messages are the same to the tracker. -/
inductive RequestTracker.Alike (tracker : RequestTracker Obs) : RawIncoming → RawIncoming → Prop
  | refl (msg : RawIncoming) : Alike tracker msg msg
  /-- Two successful responses to a request, with results as they were written. -/
  | response (id : UInt32) {v v' : Value}
      (h : ∀ p, tracker.pending.lookup id = some p → p.Ignores v v') :
      Alike tracker (.response { version := {}, id, result := .ok v.owned })
        (.response { version := {}, id, result := .ok v'.owned })

/-- A tracker does the same with messages that are alike to it. -/
theorem RequestTracker.Alike.handleIncoming_eq {tracker : RequestTracker Obs}
    {msg msg' : RawIncoming} (h : tracker.Alike msg msg') :
    tracker.handleIncoming msg = tracker.handleIncoming msg' := by
  cases h with
  | refl => rfl
  | response id h =>
    rcases hlookup : tracker.pending.lookup id with _ | p
    · rw [handleIncoming_of_lookup_eq_none hlookup, handleIncoming_of_lookup_eq_none hlookup]
    · rw [handleIncoming_of_lookup_eq_some hlookup, handleIncoming_of_lookup_eq_some hlookup]
      simp only [(h p hlookup).handle_eq]

namespace Session

/-- The calls are the same but for what the tracker ignores of their messages. -/
inductive Alike : Session Obs → List (Input Obs) → List (Input Obs) → Prop
  | nil (s : Session Obs) : Alike s [] []
  | call {s : Session Obs} {input : Input Obs} {inputs inputs' : List (Input Obs)}
      (h : Alike (s.step input) inputs inputs') : Alike s (input :: inputs) (input :: inputs')
  | incoming {s : Session Obs} {msg msg' : RawIncoming} {inputs inputs' : List (Input Obs)}
      (hmsg : s.tracker.Alike msg msg') (h : Alike (s.step (.incoming msg)) inputs inputs') :
      Alike s (.incoming msg :: inputs) (.incoming msg' :: inputs')

/-- The sessions are the same but for the bodies of the responses they record. -/
structure SameBut (s s' : Session Obs) : Prop where
  tracker : s.tracker = s'.tracker
  nextId : s.nextId = s'.nextId
  assigned : s.assigned = s'.assigned
  sent : s.sent = s'.sent

theorem SameBut.refl (s : Session Obs) : SameBut s s := ⟨rfl, rfl, rfl, rfl⟩

/-- The same call keeps them the same, and does the same with its message. -/
theorem SameBut.step {s s' : Session Obs} (h : SameBut s s') (input : Input Obs) :
    SameBut (s.step input) (s'.step input) := by
  obtain ⟨tracker, nextId, assigned, sent, resolved, cleared⟩ := s
  obtain ⟨_, _, _, _, resolved', cleared'⟩ := s'
  obtain ⟨rfl, rfl, rfl, rfl⟩ := h
  cases input <;> exact ⟨rfl, rfl, rfl, rfl⟩

/-- So do messages that are the same to the tracker. -/
theorem SameBut.incoming {s s' : Session Obs} (h : SameBut s s') {msg msg' : RawIncoming}
    (hmsg : s.tracker.Alike msg msg') :
    (s.incoming msg).1 = (s'.incoming msg').1 ∧
      SameBut (s.step (.incoming msg)) (s'.step (.incoming msg')) := by
  -- what differs between the sessions is no part of the tracker
  have hhandle : s.tracker.handleIncoming msg = s'.tracker.handleIncoming msg' := by
    rw [← h.tracker]
    exact hmsg.handleIncoming_eq
  have hfirst : (s.incoming msg).1 = (s'.incoming msg').1 := by
    show (s.tracker.handleIncoming msg).1 = (s'.tracker.handleIncoming msg').1
    rw [hhandle]
  have htracker : (s.step (.incoming msg)).tracker = (s'.step (.incoming msg')).tracker := by
    show (s.tracker.handleIncoming msg).2 = (s'.tracker.handleIncoming msg').2
    rw [hhandle]
  exact ⟨hfirst, htracker, h.nextId, h.assigned, h.sent⟩

end Session

end ElectrumStreamingClient
