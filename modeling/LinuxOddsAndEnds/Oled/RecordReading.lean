import LinuxOddsAndEnds.Foundation.Throughout
import LinuxOddsAndEnds.Oled.ButtonProcessing

/-!
# Reading records in the client

The thread of `ButtonProcessing::Run`: `epoll_wait`, the loop that puts a record together
from the answers of `read`, and the dispatch of the record. An end of file leaves the loop
with `read_ok` still set, so the thread acts on complete records exactly as long as no
`read` answers zero.
-/

namespace LinuxOddsAndEnds.Oled.Client

open Foundation

/-- What `read` answers: a positive count with its bytes, zero, and -1 with `EINTR` or with
another `errno`. -/
inductive ReadResult where
  | data (bytes : List Byte)
  | endOfFile
  | interrupted
  | failed
  deriving DecidableEq

/-- The variables of the loop; `buffer` is the offset of the pointer. -/
structure ReadLoop where
  remaining : ℕ
  buffer : ℕ
  eventBulkData : Mem

/-- `loop` is `none` while the thread waits in `epoll_wait`. -/
structure RunState where
  client : ButtonProcessing
  loop : Option ReadLoop

/-- `epoll_wait` reports the descriptor, with what the stack holds where `event_bulk_data`
will lie, or a `read` answers. -/
inductive RunAction where
  | ready (stack : Mem)
  | read (ret : ReadResult)

inductive RunSeen where
  | entered
  | received (bytes : List Byte)
  | dispatched (d : EventBulkData)
  | sent (o : Seen)

/-- The branch behind `read_ok`. -/
def dispatch (c : ButtonProcessing) (eventBulkData : Mem) : RunState × List RunSeen :=
  let d := EventBulkData.ofBytes (load eventBulkData 0 sizeofEventBulkData)
  (⟨(runRecord d c).1, none⟩, .dispatched d :: (runRecord d c).2.map .sent)

def ReadLoop.receive (l : ReadLoop) (bytes : List Byte) : ReadLoop where
  remaining := l.remaining - bytes.length
  buffer := l.buffer + bytes.length
  eventBulkData := memcpy l.eventBulkData l.buffer (ofBytes bytes) bytes.length

/-- A `read` answers no more bytes than it was asked for, and at least one if it answers a
count at all. -/
def run : Machine RunState RunAction RunSeen
  | ⟨c, none⟩, .ready stack => some (⟨c, some ⟨sizeofEventBulkData, 0, stack⟩⟩, [.entered])
  | ⟨c, some l⟩, .read (.data bytes) =>
    if 0 < bytes.length ∧ bytes.length ≤ l.remaining then
      if (l.receive bytes).remaining = 0 then
        some ((dispatch c (l.receive bytes).eventBulkData).1,
          .received bytes :: (dispatch c (l.receive bytes).eventBulkData).2)
      else some (⟨c, some (l.receive bytes)⟩, [.received bytes])
    else none
  -- `read_ok` was not reset
  | ⟨c, some l⟩, .read .endOfFile => some (dispatch c l.eventBulkData)
  | ⟨c, some l⟩, .read .interrupted => some (⟨c, some l⟩, [])
  | ⟨c, some _⟩, .read .failed => some (⟨c, none⟩, [])
  | ⟨_, none⟩, .read _ => none
  | ⟨_, some _⟩, .ready _ => none

/-- The bytes received since the loop was entered last. -/
def receivedAfter (bytes : List Byte) : RunSeen → List Byte
  | .entered => []
  | .received more => bytes ++ more
  | .dispatched _ => bytes
  | .sent _ => bytes

def received (tr : List RunSeen) : List Byte := tr.foldl receivedAfter []

/-- A record is dispatched, and a command sent, only when all bytes of a record have been
received since the loop was entered; the record is made of these bytes. -/
def FromCompleteRecord (pre : List RunSeen) : RunSeen → Prop
  | .entered => True
  | .received _ => True
  | .dispatched d =>
    (received pre).length = sizeofEventBulkData ∧ d = EventBulkData.ofBytes (received pre)
  | .sent _ => (received pre).length = sizeofEventBulkData

def notEndOfFile : RunAction → Bool
  | .read .endOfFile => false
  | _ => true

section Reading

variable {c : ButtonProcessing} {l : ReadLoop} {s s' : RunState} {tr seen : List RunSeen}
  {a : RunAction}

theorem received_append (tr tr' : List RunSeen) :
    received (tr ++ tr') = tr'.foldl receivedAfter (received tr) := List.foldl_append

@[simp] theorem received_concat (tr : List RunSeen) (o : RunSeen) :
    received (tr ++ [o]) = receivedAfter (received tr) o := received_append tr [o]

/-- The loop knows what it has received, and waits for at least one more byte. -/
structure ReadLoop.Tracks (l : ReadLoop) (bytes : List Byte) : Prop where
  buffer : l.buffer = bytes.length
  whole : bytes.length + l.remaining = sizeofEventBulkData
  waits : 0 < l.remaining
  stored : load l.eventBulkData 0 bytes.length = bytes

/-- What holds between two actions: all entries so far come from complete records. -/
structure RunState.Sound (s : RunState) (tr : List RunSeen) : Prop where
  judged : Judged FromCompleteRecord tr
  tracks : ∀ l, s.loop = some l → l.Tracks (received tr)

theorem ReadLoop.receive_stored {bytes : List Byte} (h : l.Tracks bytes) (more : List Byte) :
    load (l.receive more).eventBulkData 0 (bytes ++ more).length = bytes ++ more := by
  rw [List.length_append, ReadLoop.receive, h.buffer, load_memcpy_extend, h.stored, load_ofBytes]

theorem ReadLoop.Tracks.receive {bytes more : List Byte} (h : l.Tracks bytes)
    (hlen : more.length ≤ l.remaining) (hrest : (l.receive more).remaining ≠ 0) :
    (l.receive more).Tracks (bytes ++ more) := by
  have hwhole := h.whole
  refine ⟨?_, ?_, Nat.pos_of_ne_zero hrest, l.receive_stored h more⟩
  · rw [ReadLoop.receive, h.buffer, List.length_append]
  · rw [ReadLoop.receive, List.length_append]
    dsimp only
    omega

theorem judgedFrom_sent {bytes : List Byte} (hlen : bytes.length = sizeofEventBulkData) :
    ∀ (os : List Seen) (pre : List RunSeen), received pre = bytes →
      JudgedFrom FromCompleteRecord pre (os.map .sent) := by
  intro os
  induction os with
  | nil => exact fun _ _ => trivial
  | cons o os ih =>
    intro pre hpre
    refine ⟨?_, ih _ ?_⟩
    · rw [FromCompleteRecord, hpre, hlen]
    · rw [received_concat, receivedAfter, hpre]

theorem judgedFrom_dispatch {eventBulkData : Mem}
    (hlen : (received tr).length = sizeofEventBulkData)
    (hstored : load eventBulkData 0 sizeofEventBulkData = received tr) :
    JudgedFrom FromCompleteRecord tr (dispatch c eventBulkData).2 := by
  rw [dispatch, hstored]
  -- what the members of the client send plays no part
  generalize runRecord (EventBulkData.ofBytes (received tr)) c = out
  refine ⟨⟨hlen, rfl⟩, judgedFrom_sent hlen out.2 _ ?_⟩
  rw [received_concat, receivedAfter]

theorem RunState.Sound.step (h : s.Sound tr) (ha : notEndOfFile a = true)
    (hs : run s a = some (s', seen)) : s'.Sound (tr ++ seen) := by
  obtain ⟨c, _ | l⟩ := s
  · cases a with
    | read ret => cases hs
    | ready stack =>
      obtain ⟨rfl, rfl⟩ := Prod.mk.inj (Option.some.inj hs)
      refine ⟨h.judged.append ⟨trivial, trivial⟩, ?_⟩
      rintro _ ⟨rfl⟩
      rw [received_concat, receivedAfter]
      exact ⟨rfl, rfl, (by decide : 0 < sizeofEventBulkData), rfl⟩
  · have htracks := h.tracks l rfl
    cases a with
    | ready stack => cases hs
    | read ret =>
      cases ret with
      | endOfFile => cases ha
      | interrupted =>
        obtain ⟨rfl, rfl⟩ := Prod.mk.inj (Option.some.inj hs)
        rwa [List.append_nil]
      | failed =>
        obtain ⟨rfl, rfl⟩ := Prod.mk.inj (Option.some.inj hs)
        exact ⟨by simpa using h.judged, fun _ hl => by cases hl⟩
      | data bytes =>
        simp only [run] at hs
        split_ifs at hs with hlen hrest
        · obtain ⟨rfl, rfl⟩ := Prod.mk.inj (Option.some.inj hs)
          have hall : (received (tr ++ [RunSeen.received bytes])).length = sizeofEventBulkData := by
            have hwhole := htracks.whole
            simp only [ReadLoop.receive] at hrest
            rw [received_concat, receivedAfter, List.length_append]
            omega
          have hstored := l.receive_stored htracks bytes
          rw [received_concat, receivedAfter] at hall
          rw [hall] at hstored
          refine ⟨h.judged.append ⟨trivial, judgedFrom_dispatch ?_ ?_⟩, fun _ hl => by cases hl⟩
          · rw [received_concat, receivedAfter, hall]
          · rw [received_concat, receivedAfter, hstored]
        · obtain ⟨rfl, rfl⟩ := Prod.mk.inj (Option.some.inj hs)
          refine ⟨h.judged.append ⟨trivial, trivial⟩, ?_⟩
          rintro _ ⟨rfl⟩
          rw [received_concat, receivedAfter]
          exact htracks.receive hlen.2 hrest

/-- At an end of file an incomplete record is dispatched. -/
theorem RunState.Sound.endOfFile (h : s.Sound tr) (ha : notEndOfFile a = false)
    (hs : run s a = some (s', seen)) : ¬Judged FromCompleteRecord (tr ++ seen) := by
  obtain ⟨c, _ | l⟩ := s
  · cases a with
    | read ret => cases hs
    | ready stack => cases ha
  · have htracks := h.tracks l rfl
    cases a with
    | ready stack => cases hs
    | read ret =>
      cases ret with
      | data bytes | interrupted | failed => cases ha
      | endOfFile =>
        obtain ⟨rfl, rfl⟩ := Prod.mk.inj (Option.some.inj hs)
        apply not_judged
        rintro ⟨hlen, -⟩
        have hwhole := htracks.whole
        have hwaits := htracks.waits
        omega

end Reading

/-- Through a sequence of events and answers of `read` the thread acts on complete records
only, if and only if no `read` answers zero. -/
theorem dispatch_complete_iff (c : ButtonProcessing) (as : List RunAction)
    (hrun : (exec run ⟨c, none⟩ as).isSome) :
    Throughout run (fun _ tr => Judged FromCompleteRecord tr) ⟨c, none⟩ as ↔
      ∀ a ∈ as, notEndOfFile a = true := by
  have hstart : RunState.Sound ⟨c, none⟩ [] := ⟨trivial, fun _ hl => by cases hl⟩
  rw [← exec_when_isSome_iff as _ hrun]
  exact throughout_iff (fun _ _ h => h.judged) (fun _ _ _ _ _ h ha hs => h.step ha hs)
    (fun _ _ _ _ _ h ha hs => h.endOfFile ha hs) hstart hrun

/-- A record of rocker east in two pieces, with an interrupted `read` between them. -/
def eastInPieces : List RunAction :=
  [.ready fun _ => 0, .read (.data [5, 0, 0, 0]), .read .interrupted,
    .read (.data (List.replicate 92 0))]

theorem dispatch_complete_east :
    Throughout run (fun _ tr => Judged FromCompleteRecord tr) ⟨constructed, none⟩ eastInPieces :=
  (dispatch_complete_iff constructed eastInPieces (by rfl)).mpr
    (by simp [eastInPieces, notEndOfFile])

/-- The driver answers zero at once, and the button that the stack holds is dispatched. -/
theorem dispatch_of_nothing :
    ¬Throughout run (fun _ tr => Judged FromCompleteRecord tr) ⟨constructed, none⟩
      [.ready fun _ => 0, .read .endOfFile] := by
  intro h
  have hrun : exec run ⟨constructed, none⟩ [.ready fun _ => 0, .read .endOfFile] =
      some (_, .entered :: (dispatch constructed fun _ => 0).2) := rfl
  have hjudged := h.last hrun
  exact absurd hjudged.2.1.1 (by decide)

end LinuxOddsAndEnds.Oled.Client
