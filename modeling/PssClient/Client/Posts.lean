import PssClient.Client.Tracked

/-!
# What a step posts

Tasks are posted by the handlers of completed operations and by `do_write_format_data` on a client
that is not connected; `do_message` is called by the tasks and by `do_check_timeout`. Posted tasks
stay in the list, so that the lists of sources and of origins name the source of each task and of
each call.

* `posted_of_handler` / `posted_of_other` — the tasks that a step adds.
* `messages_of_step` — the calls of `do_message` that a step makes, and the tasks it runs.
* `postedFrom` / `postedFrom_of_step` — the tasks with their sources.
-/

namespace PssClient

namespace Client

variable {F : Type*} {fmt : IpacketFormat F}

theorem posted_startOp (op : Op) (s : Client F) : (startOp op s).posted = s.posted := by
  unfold startOp
  split <;> rfl

theorem posted_reconnect (s : Client F) : (reconnect s).posted = s.posted := by
  unfold reconnect
  split
  · unfold startConnect
    split <;> rfl
  · rfl

theorem posted_connectionLost (s : Client F) :
    (connectionLost s).posted
      = s.posted ++ .message .disconnect ::
          if s.isClientClose = false then [.reconnect] else [] := by
  by_cases hstays : s.isClientClose = false
  · have heq : connectionLost s
        = post [.reconnect] (closeSocket (post [.message .disconnect] s)) := if_pos hstays
    rw [heq, if_pos hstays]
    show (s.posted ++ [.message .disconnect]) ++ [.reconnect] = _
    rw [List.append_assoc]
    rfl
  · have heq : connectionLost s = post [.message .disconnect] s := if_neg hstays
    rw [heq, if_neg hstays]
    rfl

/-- What the handler of a completion posts. -/
def HandlerPosts (fmt : IpacketFormat F) (s : Client F) (c : Completion) (new : List Task) :
    Prop :=
  match c with
  | .connected => new = [.message .connect]
  | .connectFailed => new = [.message .disconnect]
  | .received length =>
    ∃ r, fmt.formatRecvBuffer s.connectId (s.recvBuffer.take length) s.packetFormat = some r ∧
      new = r.1.map fun p => .message (.packet p)
  | .sent _ _ => new = []
  | .readFailed | .writeFailed =>
    new = .message .disconnect :: if s.isClientClose = false then [.reconnect] else []

theorem posted_of_handler {c : Completion} {s s' : Client F} (h : Handles fmt s c s') :
    ∃ new, s'.posted = s.posted ++ new ∧ HandlerPosts fmt s c new := by
  cases h with
  | connected => exact ⟨_, posted_startOp .read _, rfl⟩
  | connectFailed => exact ⟨_, rfl, rfl⟩
  | received bytes r hcall => exact ⟨_, posted_startOp .read _, r, hcall, rfl⟩
  | readFailed => exact ⟨_, posted_connectionLost s, rfl⟩
  | sentAll => exact ⟨[], (List.append_nil _).symm, rfl⟩
  | sentPart rest sendLength =>
    exact ⟨[], (posted_startOp _ s).trans (List.append_nil _).symm, rfl⟩
  | writeFailed => exact ⟨_, posted_connectionLost s, rfl⟩

/-- Neither the worker nor the manager has done anything. -/
structure Untouched (s t : Client F) : Prop where
  ran : t.ran = s.ran
  messages : t.messages = s.messages
  registered : t.registered = s.registered
  timerCheckSeconds : t.timerCheckSeconds = s.timerCheckSeconds

theorem posted_complete {i : Nat} {outcome : Outcome} {s s' : Client F}
    (h : complete i outcome s = some s') :
    s'.posted = s.posted ∧ Untouched s s' := by
  obtain ⟨op, c, socket, buffer, -, -, rfl⟩ := ends_of_complete h
  exact ⟨rfl, rfl, rfl, rfl, rfl⟩

/-- The other steps post an error at most. -/
theorem posted_of_other {a : Action} {s s' : Client F} (ha : ∀ i, a ≠ .handle i)
    (h : step fmt s a = some s') :
    ∃ new, s'.posted = s.posted ++ new ∧ ∀ task ∈ new, task = .message .disconnect := by
  have hnone : ∀ {t : Client F}, t.posted = s.posted →
      ∃ new, t.posted = s.posted ++ new ∧ ∀ task ∈ new, task = Task.message .disconnect :=
    fun ht => ⟨[], ht.trans (List.append_nil _).symm, fun _ htask => (List.not_mem_nil htask).elim⟩
  cases does_of_step h with
  | complete hcomplete => exact hnone (posted_complete hcomplete).1
  | @handle i => exact absurd rfl (ha i)
  | message => exact hnone rfl
  | reconnect => exact hnone (posted_reconnect _)
  | late => exact hnone rfl
  | inTime => exact hnone rfl
  | timeCheck => exact hnone rfl
  | timeReconnect => exact hnone (posted_reconnect _)
  | closeClient => exact hnone rfl
  | reconnectServer => exact hnone (posted_reconnect s)
  | sendData => exact hnone (posted_startOp _ s)
  | refused => exact ⟨_, rfl, fun task htask => List.mem_singleton.mp htask⟩
  | sendFormatData r => exact hnone (posted_startOp _ { s with packetFormat := r.2 })
  | unknown => exact hnone rfl
  | tick d => exact hnone rfl

/-! ## What `do_message` is called with -/

theorem untouched_startOp (op : Op) (s : Client F) : Untouched s (startOp op s) := by
  unfold startOp
  split <;> exact ⟨rfl, rfl, rfl, rfl⟩

theorem untouched_reconnect (s : Client F) : Untouched s (reconnect s) := by
  unfold reconnect
  split
  · unfold startConnect
    split <;> exact ⟨rfl, rfl, rfl, rfl⟩
  · exact ⟨rfl, rfl, rfl, rfl⟩

theorem untouched_connectionLost (s : Client F) : Untouched s (connectionLost s) := by
  unfold connectionLost
  dsimp only
  split <;> exact ⟨rfl, rfl, rfl, rfl⟩

theorem untouched_handler {c : Completion} {s s' : Client F} (h : Handles fmt s c s') :
    Untouched s s' := by
  cases h with
  | connected =>
    obtain ⟨hran, hmessages, hregistered, hseconds⟩ := untouched_startOp .read
      { post [.message .connect] { s with isConnect := true } with recvLastTimer := s.now }
    exact ⟨hran, hmessages, hregistered, hseconds⟩
  | connectFailed => exact ⟨rfl, rfl, rfl, rfl⟩
  | received length r =>
    obtain ⟨hran, hmessages, hregistered, hseconds⟩ := untouched_startOp .read
      { post (r.1.map fun p => .message (.packet p)) s with
        packetFormat := r.2
        recvLastTimer := s.now
        received := s.received ++ [s.recvBuffer.take length] }
    exact ⟨hran, hmessages, hregistered, hseconds⟩
  | readFailed => exact untouched_connectionLost s
  | sentAll => exact ⟨rfl, rfl, rfl, rfl⟩
  | sentPart => exact untouched_startOp _ s
  | writeFailed =>
    obtain ⟨hran, hmessages, hregistered, hseconds⟩ := untouched_connectionLost s
    exact ⟨hran, hmessages, hregistered, hseconds⟩

/-- The steps of the I/O thread, and the calls of the manager except `close_client`. -/
theorem untouched_of_step {a : Action} {s s' : Client F} (h : step fmt s a = some s')
    (hrun : a ≠ .runTask) (hcheck : a ≠ .timerCheck) (hclose : a ≠ .closeClient) :
    Untouched s s' := by
  cases does_of_step h with
  | complete hcomplete => exact (posted_complete hcomplete).2
  | handle hget hhandler =>
    obtain ⟨hran, hmessages, hregistered, hseconds⟩ := untouched_handler hhandler
    exact ⟨hran, hmessages, hregistered, hseconds⟩
  | message => exact absurd rfl hrun
  | reconnect => exact absurd rfl hrun
  | late => exact ⟨rfl, rfl, rfl, rfl⟩
  | inTime => exact ⟨rfl, rfl, rfl, rfl⟩
  | timeCheck => exact absurd rfl hcheck
  | timeReconnect => exact absurd rfl hcheck
  | closeClient => exact absurd rfl hclose
  | reconnectServer => exact untouched_reconnect s
  | sendData data => exact untouched_startOp (.write data) s
  | refused => exact ⟨rfl, rfl, rfl, rfl⟩
  | sendFormatData r =>
    obtain ⟨hran, hmessages, hregistered, hseconds⟩ :=
      untouched_startOp (.write r.1) { s with packetFormat := r.2 }
    exact ⟨hran, hmessages, hregistered, hseconds⟩
  | unknown => exact ⟨rfl, rfl, rfl, rfl⟩
  | tick d => exact ⟨rfl, rfl, rfl, rfl⟩

/-- The calls of `do_message` that a task makes. -/
def callsOf : Task → List Event
  | .message e => [e]
  | .reconnect => []

/-- A step runs the task in front, or it is the call of `do_check_timeout`, or it calls nothing. -/
theorem messages_of_step {a : Action} {s s' : Client F} (h : step fmt s a = some s') :
    (a = .runTask ∧ ∃ task, s.posted[s.ran]? = some task ∧ s'.posted = s.posted ∧
        s'.ran = s.ran + 1 ∧ s'.messages = s.messages ++ callsOf task) ∨
      (a ≠ .runTask ∧ s'.ran = s.ran ∧
        (s'.messages = s.messages ∨
          a = .timerCheck ∧ ∃ seconds, s'.messages = s.messages ++ [.timeCheck seconds])) := by
  cases does_of_step h with
  | message e hget => exact .inl ⟨rfl, .message e, hget, rfl, rfl, rfl⟩
  | reconnect hget =>
    have hsame := untouched_reconnect { s with ran := s.ran + 1 }
    exact .inl ⟨rfl, .reconnect, hget, posted_reconnect _, hsame.ran,
      hsame.messages.trans (List.append_nil _).symm⟩
  | timeCheck seconds => exact .inr ⟨nofun, rfl, .inr ⟨rfl, seconds, rfl⟩⟩
  | timeReconnect =>
    have hsame := untouched_reconnect { s with timeoutSession := none }
    exact .inr ⟨nofun, hsame.ran, .inl hsame.messages⟩
  | closeClient => exact .inr ⟨nofun, rfl, .inl rfl⟩
  | @unknown a _ ha =>
    refine .inr ⟨?_, rfl, .inl rfl⟩
    rintro rfl
    cases ha
  | _ =>
    have hsame := untouched_of_step h nofun nofun nofun
    exact .inr ⟨nofun, hsame.ran, .inl hsame.messages⟩

/-- Only `close_client` erases the entry of the client. -/
theorem registered_of_step {a : Action} {s s' : Client F} (h : step fmt s a = some s')
    (ha : a ≠ .closeClient) : s'.registered = s.registered := by
  cases does_of_step h with
  | closeClient => exact absurd rfl ha
  | message => rfl
  | reconnect => exact (untouched_reconnect { s with ran := s.ran + 1 }).registered
  | timeCheck => rfl
  | timeReconnect => exact (untouched_reconnect { s with timeoutSession := none }).registered
  | unknown => rfl
  | _ => exact (untouched_of_step h nofun nofun nofun).registered

/-- When `start` has returned nothing has been posted, and the client is registered. -/
theorem start_posted (transport : Transport) (connectId : Nat) (timerCheckSeconds : Int) (pf : F) :
    (start transport connectId timerCheckSeconds pf).posted = [] ∧
      (start transport connectId timerCheckSeconds pf).ran = 0 ∧
      (start transport connectId timerCheckSeconds pf).messages = [] ∧
      (start transport connectId timerCheckSeconds pf).registered = true := by
  unfold start startConnect
  split <;> exact ⟨rfl, rfl, rfl, rfl⟩

end Client

namespace Tracked

variable {F : Type*} {fmt : IpacketFormat F}

/-- The posted tasks with their sources. -/
def postedFrom (t : Tracked F) : List (Task × Source) := t.client.posted.zip t.sources

theorem zip_replicate {α β : Type*} (l : List α) (b : β) :
    l.zip (List.replicate l.length b) = l.map fun a => (a, b) := by
  induction l with
  | nil => rfl
  | cons a l ih =>
    show (a, b) :: l.zip (List.replicate l.length b) = _
    rw [ih]
    rfl

/-- New entries of a list get one tag. -/
theorem zip_extend {α β : Type*} {l l' new : List α} {tags : List β} (b : β)
    (hlength : tags.length = l.length) (hnew : l' = l ++ new) :
    (tags ++ List.replicate (l'.length - l.length) b).length = l'.length ∧
      l'.zip (tags ++ List.replicate (l'.length - l.length) b)
        = l.zip tags ++ new.map fun a => (a, b) := by
  have hadded : l'.length - l.length = new.length := by
    rw [hnew, List.length_append]
    omega
  rw [hadded, hnew]
  constructor
  · rw [List.length_append, List.length_append, List.length_replicate, hlength]
  · rw [List.zip_append hlength.symm, zip_replicate]

/-- The tasks that a step adds have the step's source. -/
theorem postedFrom_of_step {t t' : Tracked F} {a : Client.Action} {new : List Task}
    (hlength : t.sources.length = t.client.posted.length) (hs : step fmt t a = some t')
    (hnew : t'.client.posted = t.client.posted ++ new) :
    t'.sources.length = t'.client.posted.length ∧
      t'.postedFrom = t.postedFrom ++ new.map fun task => (task, t.postedBy a) := by
  obtain ⟨s', -, rfl⟩ := Option.map_eq_some_iff.mp hs
  exact zip_extend (t.postedBy a) hlength hnew

/-- The handler of an operation is the source of what it posts. -/
theorem postedBy_handle {t : Tracked F} {i : Nat} {c : Completion} {tag : OpTag}
    (hc : t.client.completed[i]? = some c) (htag : t.tags.completed[i]? = some tag) :
    t.handles (.handle i) = [(tag, c)] ∧ t.postedBy (.handle i) = .handler tag c := by
  have hhandles : t.handles (.handle i) = [(tag, c)] := by
    unfold handles
    dsimp only
    rw [hc, htag]
  refine ⟨hhandles, ?_⟩
  rw [postedBy, hhandles]

theorem postedBy_other {t : Tracked F} {a : Client.Action} (ha : ∀ i, a ≠ .handle i) :
    t.handles a = [] ∧ t.postedBy a = .call := by
  have hhandles : t.handles a = [] := by
    cases a with
    | handle i => exact absurd rfl (ha i)
    | _ => rfl
  refine ⟨hhandles, ?_⟩
  rw [postedBy, hhandles]

end Tracked

end PssClient
