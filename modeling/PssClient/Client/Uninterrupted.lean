import PssClient.Client.Threads

/-!
# Routines that nobody interrupts

`Client.step` takes a whole handler, a whole task and a whole call of the manager as one action.
Here that is one of the interleavings of `Threads`: the thread that runs the routine takes all its
accesses, and the others wait.

* `Leads` — the threads can bring the client into a state and be out of their routines. A rule for
  the next access of each thread (`Leads.io` … `Leads.call`), and one for the packets of a piece.
* `leads_lost` / `leads_handle` / `leads_reconnect` — the routines.
* `leads_of_client` — one action of `Client.step`, and `run_of_client` a run of them.
-/

namespace PssClient.Threads

open Machine

variable {F : Type*} {fmt : IpacketFormat F}

/-- No thread is in a routine. -/
structure Idle (s : Threads F) : Prop where
  io : s.io = []
  worker : s.worker = []
  round : s.round = []
  call : s.call = []

/-- The threads can bring the client into that state and be out of their routines: there is an
interleaving that does, namely the one in which nobody comes between. -/
def Leads (fmt : IpacketFormat F) (s : Threads F) (client : Client F) : Prop :=
  ∃ as t, run (step fmt) s as = some t ∧ Idle t ∧ t.client = client

theorem Leads.done {s : Threads F} (h : Idle s) : Leads fmt s s.client := ⟨[], s, rfl, h, rfl⟩

theorem Leads.step {s s' : Threads F} {a : Action} {client : Client F}
    (h : Leads fmt s' client) (hs : step fmt s a = some s') : Leads fmt s client := by
  obtain ⟨as, t, hrun, hdone⟩ := h
  exact ⟨a :: as, t, run_cons.mpr ⟨s', hs, hrun⟩, hdone⟩

/-- The I/O thread goes on. -/
theorem Leads.io {s : Threads F} {a : IoAccess} {rest : List IoAccess} {client : Client F}
    (hio : s.io = a :: rest)
    (h : Leads fmt { s with
      client := a.effect s.client
      io := a.next s.client ++ rest
      captures := s.captures ++ a.captures } client) : Leads fmt s client :=
  h.step (a := .go .io) (by simp only [Threads.step, go, hio])

theorem Leads.worker {s : Threads F} {a : TaskAccess} {rest : List TaskAccess} {client : Client F}
    (hworker : s.worker = a :: rest)
    (h : Leads fmt { s with
      client := a.effect s.client, worker := a.next s.client ++ rest } client) :
    Leads fmt s client :=
  h.step (a := .go .worker) (by simp only [Threads.step, go, hworker])

theorem Leads.round {s : Threads F} {a : TaskAccess} {rest : List TaskAccess} {client : Client F}
    (hround : s.round = a :: rest)
    (h : Leads fmt { s with
      client := a.effect s.client, round := a.next s.client ++ rest } client) :
    Leads fmt s client :=
  h.step (a := .go .round) (by simp only [Threads.step, go, hround])

theorem Leads.call {s : Threads F} {a : CallAccess} {rest : List CallAccess}
    {r : Client F × List CallAccess} {client : Client F} (hcall : s.call = a :: rest)
    (hperform : a.perform fmt s.client = some r)
    (h : Leads fmt { s with
      client := r.1, call := r.2 ++ rest, captures := s.captures ++ a.captures } client) :
    Leads fmt s client :=
  h.step (a := .go .call) (by simp only [Threads.step, go, hcall, hperform, Option.map_some])

/-- The packets of a piece are posted, one after another. -/
theorem Leads.posts {tasks : List Task} {rest : List IoAccess} {s : Threads F} {client : Client F}
    (hio : s.io = tasks.map (fun task => .post task true) ++ rest)
    (h : ∀ captures, Leads fmt { s with
      client := s.client.post tasks, io := rest, captures := captures } client) :
    Leads fmt s client := by
  induction tasks generalizing s with
  | nil =>
    obtain rfl : s.io = rest := hio
    have hsame : s.client.post [] = s.client := by rw [Client.post, List.append_nil]
    rw [hsame] at h
    exact h s.captures
  | cons task tasks ih =>
    refine .io hio (ih rfl fun captures => ?_)
    have hposted : (s.client.post [task]).post tasks = s.client.post (task :: tasks) := by
      simp [Client.post]
    rw [← hposted] at h
    exact h captures

/-- `reconnect`, on the thread of a task. -/
theorem leads_reconnect {s : Threads F} (h : s.io = [] ∧ s.round = [] ∧ s.call = [])
    (hworker : s.worker = [.testConnect]) : Leads fmt s s.client.reconnect := by
  obtain ⟨hio, hround, hcall⟩ := h
  refine .worker hworker ?_
  unfold Client.reconnect TaskAccess.next
  by_cases hflag : s.client.isConnect = false
  · rw [if_pos hflag, if_pos hflag]
    exact .worker rfl (.done ⟨hio, rfl, hround, hcall⟩)
  · rw [if_neg hflag, if_neg hflag]
    exact .done ⟨hio, rfl, hround, hcall⟩

/-- The failure of a read or a write, with what its handler does behind it. -/
theorem leads_lost {s : Threads F} {self : Bool} {rest : List IoAccess}
    {client : Client F} (hio : s.io = .post (.message .disconnect) self :: .testClose :: rest)
    (hrest : ∀ captures, Leads fmt { s with
      client := s.client.connectionLost, io := rest, captures := captures } client) :
    Leads fmt s client := by
  have htest : ∀ client : Client F, client.isClientClose = s.client.isClientClose →
      IoAccess.testClose.next client
        = if s.client.isClientClose = false then [.setConnect false, .close, .post .reconnect true]
          else [] := fun client hsame => by rw [← hsame]; rfl
  have hposted : (IoAccess.effect s.client (.post (.message .disconnect) self)).isClientClose
      = s.client.isClientClose := rfl
  refine .io hio (.io rfl ?_)
  by_cases hclose : s.client.isClientClose = false
  · have hnext := (htest _ hposted).trans (if_pos hclose)
    rw [hnext]
    have hlost : s.client.connectionLost
        = ((s.client.post [.message .disconnect]).closeSocket).post [.reconnect] := if_pos hclose
    rw [hlost] at hrest
    exact .io rfl (.io rfl (.io rfl (hrest _)))
  · have hnext := (htest _ hposted).trans (if_neg hclose)
    rw [hnext]
    have hlost : s.client.connectionLost = s.client.post [.message .disconnect] := if_neg hclose
    rw [hlost] at hrest
    exact hrest _

/-- A whole handler of `Client.step` is a run of its accesses in which no other thread goes on in
between. The cases are the completions, each with the accesses of its handler in their order. -/
theorem leads_handle {s : Threads F} (h : Idle s) {i : Nat} {c : Completion} {client : Client F}
    (hget : s.client.completed[i]? = some c)
    (hhandles : Client.Handles fmt { s.client with completed := s.client.completed.eraseIdx i } c
      client) : Leads fmt s client := by
  -- the handler begins with its list of accesses, which end where the action does
  have hbegin : ∀ r, handlerAccesses fmt
      { s.client with completed := s.client.completed.eraseIdx i } c = some r →
      Leads fmt { s with client := r.1, io := r.2, handling := some c } client →
      Leads fmt s client := by
    intro r hr hleads
    apply hleads.step (a := .handle i)
    rw [Threads.step, if_pos h.io, hget, Option.bind_some, hr, Option.map_some]
  have hdone : ∀ {t : Threads F}, t.io = [] → t.worker = s.worker → t.round = s.round →
      t.call = s.call → Idle t := fun hio hworker hround hcall =>
    ⟨hio, hworker.trans h.worker, hround.trans h.round, hcall.trans h.call⟩
  cases hhandles with
  | connected =>
    exact hbegin _ rfl (.io rfl (.io rfl (.io rfl (.io rfl (.done (hdone rfl rfl rfl rfl))))))
  | connectFailed => exact hbegin _ rfl (.io rfl (.io rfl (.done (hdone rfl rfl rfl rfl))))
  | received bytes r hcall =>
    refine hbegin _ (Option.map_eq_some_iff.mpr ⟨r, hcall, rfl⟩) ?_
    -- one post for each packet
    have hposts : ∀ packets : List CrecvPacket,
        packets.map (fun p => IoAccess.post (.message (.packet p)) true)
          = (packets.map fun p => Task.message (.packet p)).map fun task => .post task true :=
      fun packets => by rw [List.map_map]; rfl
    rw [hposts]
    exact .posts rfl fun captures => .io rfl (.io rfl (.done (hdone rfl rfl rfl rfl)))
  | readFailed =>
    refine hbegin _ rfl (leads_lost rfl fun captures => ?_)
    exact .done (hdone rfl rfl rfl rfl)
  | sentAll rest sendLength hdrop =>
    apply hbegin _ rfl
    rw [if_pos hdrop]
    exact .io rfl (.done (hdone rfl rfl rfl rfl))
  | sentPart rest sendLength hdrop =>
    apply hbegin _ rfl
    rw [if_neg hdrop]
    exact .io rfl (.done (hdone rfl rfl rfl rfl))
  | writeFailed =>
    refine hbegin _ rfl (leads_lost rfl fun captures => ?_)
    exact .io rfl (.done (hdone rfl rfl rfl rfl))

/-- **An action of `Client.step` is a routine that nobody interrupts.** From a state in which no
thread is inside a function, the thread that the action belongs to takes the accesses of its
function one after the other, and comes to the same client with no thread inside a function again.
-/
theorem leads_of_client {s : Threads F} (h : Idle s) {a : Client.Action} {client : Client F}
    (hs : Client.step fmt s.client a = some client) : Leads fmt s client := by
  have hidle : Idle { s with client := client } := ⟨h.io, h.worker, h.round, h.call⟩
  -- how the four kinds of routines begin: in one step, on the worker, in a call, in a round
  have hplain : ∀ b, step fmt s b = some { s with client := client } → Leads fmt s client :=
    fun b hb => (Leads.done hidle).step hb
  have hworker : ∀ task, s.client.posted[s.client.ran]? = some task →
      Leads fmt { s with
        client := { s.client with ran := s.client.ran + 1 }
        worker := taskAccesses task } client → Leads fmt s client := by
    intro task hget hleads
    apply hleads.step (a := .runTask)
    rw [Threads.step, if_pos h.worker, hget, Option.map_some]
  have hcall : ∀ c accesses, begin c = some accesses → s.client.registered = true →
      Leads fmt { s with call := accesses } client → Leads fmt s client := by
    intro c accesses hbegin hreg hleads
    apply hleads.step (a := .call c)
    rw [Threads.step, if_pos h.call, if_pos hreg, hbegin, Option.map_some]
  have htimer : ∀ seconds, s.client.timeoutSession = some seconds →
      Leads fmt { s with
        client := { s.client with timeoutSession := none }
        round := [.checkTimeout seconds] } client → Leads fmt s client := by
    intro seconds hsession hleads
    apply hleads.step (a := .timerCheck)
    rw [Threads.step, if_pos h.round, hsession, Option.map_some]
  have hothers : s.io = [] ∧ s.round = [] ∧ s.call = [] := ⟨h.io, h.round, h.call⟩
  -- the accesses of each routine, in the order of the source
  cases Client.does_of_step hs with
  | @complete i outcome _ hcomplete =>
    apply hplain (.complete i outcome)
    rw [Threads.step, hcomplete, Option.map_some]
  | handle hget hhandles => exact leads_handle h hget hhandles
  | message e hget =>
    exact hworker _ hget (.worker rfl (.done ⟨h.io, rfl, h.round, h.call⟩))
  | reconnect hget => exact hworker _ hget (leads_reconnect hothers rfl)
  | late | inTime =>
    have hsnapshot : s.client.timerSnapshot = some _ := hs
    apply hplain .timerSnapshot
    rw [Threads.step, if_pos ⟨h.call, h.round⟩, hsnapshot, Option.map_some]
  | timeCheck seconds hsession hflag =>
    refine htimer _ hsession (.round rfl ?_)
    have hnext : (TaskAccess.checkTimeout seconds).next { s.client with timeoutSession := none }
        = [.message (.timeCheck seconds)] := if_pos hflag
    rw [hnext]
    exact .round rfl (.done ⟨h.io, h.worker, rfl, h.call⟩)
  | timeReconnect seconds hsession hflag =>
    refine htimer _ hsession (.round rfl ?_)
    have hnext : (TaskAccess.checkTimeout seconds).next { s.client with timeoutSession := none }
        = [.testConnect] := if_neg (by rw [hflag]; decide)
    rw [hnext]
    refine .round rfl ?_
    -- the round goes on to the test of the flag in `reconnect`
    have hreconnect : TaskAccess.testConnect.next { s.client with timeoutSession := none }
        = [.connect] := if_pos hflag
    rw [Client.reconnect, if_pos hflag]
    have hround : TaskAccess.testConnect.next { s.client with timeoutSession := none } ++ []
        = TaskAccess.connect :: [] := congrArg (· ++ []) hreconnect
    exact .round hround (.done ⟨h.io, h.worker, rfl, h.call⟩)
  | closeClient hreg =>
    exact hcall .closeClient _ rfl hreg (.call rfl rfl (.call rfl rfl (.call rfl rfl
      (.call rfl rfl (.done ⟨h.io, h.worker, h.round, rfl⟩)))))
  | reconnectServer hreg =>
    refine hcall .reconnectServer _ rfl hreg (.call rfl rfl ?_)
    unfold Client.reconnect TaskAccess.next
    by_cases hflag : s.client.isConnect = false
    · rw [if_pos hflag, if_pos hflag]
      exact .call rfl rfl (.done ⟨h.io, h.worker, h.round, rfl⟩)
    · rw [if_neg hflag, if_neg hflag]
      exact .done ⟨h.io, h.worker, h.round, rfl⟩
  | @sendData sendBuff sendSize data hreg hdata =>
    refine hcall (.clientSendData sendBuff sendSize) [.write data] ?_ hreg ?_
    · rw [begin, hdata, Option.map_some]
    · exact .call rfl rfl (.done ⟨h.io, h.worker, h.round, rfl⟩)
  | @refused commandId sendBuff sendSize hreg hclosed =>
    apply hcall (.clientSendFormatData commandId sendBuff sendSize) _ rfl hreg
    refine .call rfl (if_pos hclosed) (.call rfl rfl ?_)
    exact .done ⟨h.io, h.worker, h.round, rfl⟩
  | @sendFormatData commandId sendBuff sendSize r hreg hopen hformat =>
    apply hcall (.clientSendFormatData commandId sendBuff sendSize) _ rfl hreg
    have hperform : (CallAccess.format commandId sendBuff sendSize).perform fmt s.client
        = some ({ s.client with packetFormat := r.2 }, [.write r.1]) := by
      rw [CallAccess.perform, if_neg hopen, hformat, Option.map_some]
    exact .call rfl hperform (.call rfl rfl (.done ⟨h.io, h.worker, h.round, rfl⟩))
  | unknown hreg ha => exact .done h
  | tick d => exact hplain (.tick d) rfl

/-- **The runs of `Client` are runs of its threads.** -/
theorem run_of_client {s : Threads F} (h : Idle s) {as : List Client.Action} {client : Client F}
    (hrun : run (Client.step fmt) s.client as = some client) : Leads fmt s client := by
  induction as generalizing s with
  | nil =>
    obtain rfl := Option.some.inj hrun
    exact .done h
  | cons a as ih =>
    obtain ⟨client', hs, hrest⟩ := run_cons.mp hrun
    obtain ⟨bs, t, hbs, hidle, rfl⟩ := leads_of_client h hs
    obtain ⟨cs, u, hcs, hdone⟩ := ih hidle hrest
    exact ⟨bs ++ cs, u, run_append.mpr ⟨t, hbs, hcs⟩, hdone⟩

end PssClient.Threads
