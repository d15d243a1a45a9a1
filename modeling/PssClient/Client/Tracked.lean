import PssClient.Client.Rules
import PssClient.Lib.Pool
import PssClient.Lib.Run

/-!
# Where an operation comes from

The handlers of a client do not know which connection their operation was started on, and a task
does not know who posted it. Here a client is run together with what an observer knows: every
operation has a serial number and belongs to the connection attempt during which it was started,
and every posted task and every call of `do_message` has a source.

* `Tags` — the numbers, one for every operation of the client and in the same order.
* `Tracked` / `step` — the client's own step, with the tags and logs brought up to date.
  `run_client` and `exists_tracked`: the tracked runs are the runs of the client.
* `Tagged` — a relation between operations and tags that an operation hands on when it ends, and
  what the steps make of it. `aligned_step`: the tags stay those of the operations.
-/

namespace PssClient

inductive OpKind
  | connect
  | read
  | write
  deriving DecidableEq

def Op.kind : Op → OpKind
  | .connect _ => .connect
  | .read => .read
  | .write _ => .write

def Completion.kind : Completion → OpKind
  | .connected | .connectFailed => .connect
  | .received _ | .readFailed => .read
  | .sent _ _ | .writeFailed => .write

/-- A read or a write that has failed. -/
def Completion.lost : Completion → Bool
  | .readFailed | .writeFailed => true
  | _ => false

theorem Op.kind_failed (op : Op) : op.failed.kind = op.kind := by cases op <;> rfl

/-- What is known of an operation that the source keeps no record of: its number, in the order in
which the operations have been started, the attempt that it was started on, and its kind. -/
structure OpTag where
  serial : Nat
  attempt : Nat
  kind : OpKind
  deriving DecidableEq

/-- The tags of a client's operations, and the attempt that the socket belongs to. -/
structure Tags where
  attempt : Nat := 0
  serial : Nat := 0
  outstanding : List OpTag := []
  completed : List OpTag := []

namespace Client

variable {F : Type*} {fmt : IpacketFormat F}

/-- Does the step start a connect? -/
def startsConnect (s : Client F) : Action → Prop
  | .runTask => s.posted[s.ran]? = some .reconnect ∧ s.isConnect = false
  | .timerCheck => s.timeoutSession.isSome = true ∧ s.isConnect = false
  | .reconnectServer => s.registered = true ∧ s.isConnect = false
  | _ => False

/-- A connected client is not connected again. -/
theorem reconnect_eq_self {s : Client F} (h : ¬ s.isConnect = false) : reconnect s = s := if_neg h

/-- A step that starts a connect is `startConnect`, up to fields that hold no operation. -/
theorem eq_startConnect_of_step {s s' : Client F} {a : Action} (hstarts : startsConnect s a)
    (hstep : step fmt s a = some s') :
    ∃ t, s' = startConnect t ∧ t.outstanding = s.outstanding ∧ t.completed = s.completed ∧
      (busy t ↔ busy s) := by
  cases does_of_step hstep with
  | message e hget =>
    have htask := hget.symm.trans hstarts.1
    cases htask
  | reconnect hget =>
    exact ⟨{ s with ran := s.ran + 1 }, if_pos hstarts.2, rfl, rfl, Iff.rfl⟩
  | timeCheck seconds hsession hflag => exact absurd (hflag.symm.trans hstarts.2) nofun
  | timeReconnect seconds hsession hflag =>
    exact ⟨{ s with timeoutSession := none }, if_pos hflag, rfl, rfl, Iff.rfl⟩
  | reconnectServer hreg => exact ⟨s, if_pos hstarts.2, rfl, rfl, Iff.rfl⟩
  | @unknown a hreg ha =>
    cases a with
    | reconnectServer => exact absurd hstarts.1 hreg
    | closeClient => exact hstarts.elim
    | clientSendData => exact hstarts.elim
    | clientSendFormatData => exact hstarts.elim
    | _ => cases ha
  | _ => exact hstarts.elim

end Client

namespace Tags

variable {F : Type*}

/-- A connect that the socket refuses begins no attempt. -/
def startConnect (s : Client F) (g : Tags) : Tags :=
  { g with
    attempt := if s.busy then g.attempt else g.attempt + 1
    serial := g.serial + 1
    outstanding := g.outstanding ++
      [⟨g.serial, if s.busy then g.attempt else g.attempt + 1, .connect⟩] }

/-- An operation, which on a closed socket completes at once. -/
def launch (s : Client F) (tag : OpTag) (g : Tags) : Tags :=
  if s.socket = .closed then { g with completed := g.completed ++ [tag] }
  else { g with outstanding := g.outstanding ++ [tag] }

/-- A new read or write. -/
def startOp (kind : OpKind) (s : Client F) (g : Tags) : Tags :=
  launch s ⟨g.serial, g.attempt, kind⟩ { g with serial := g.serial + 1 }

def complete (i : Nat) (g : Tags) : Tags :=
  match g.outstanding[i]? with
  | some tag => { g with
      outstanding := g.outstanding.eraseIdx i, completed := g.completed ++ [tag] }
  | none => g

def closeSocket (g : Tags) : Tags :=
  { g with outstanding := [], completed := g.completed ++ g.outstanding }

def reconnect (s : Client F) (g : Tags) : Tags :=
  if s.isConnect = false then startConnect s g else g

/-- The handlers. The rest of a write belongs to the same write. -/
def handler (s : Client F) (tag : OpTag) (c : Completion) (g : Tags) : Tags :=
  match c with
  | .connected | .received _ => startOp .read s g
  | .connectFailed => g
  | .sent rest sendLength => if rest.drop sendLength = [] then g else launch s tag g
  | .readFailed | .writeFailed => if s.isClientClose = false then closeSocket g else g

/-- The tags after a step from `s`. -/
def after (s : Client F) (g : Tags) : Client.Action → Tags
  | .complete i _ => complete i g
  | .handle i =>
    match s.completed[i]?, g.completed[i]? with
    | some c, some tag => handler s tag c { g with completed := g.completed.eraseIdx i }
    | _, _ => g
  | .runTask => if s.posted[s.ran]? = some .reconnect then reconnect s g else g
  | .timerCheck => reconnect s g
  | .closeClient => if s.registered = true then closeSocket g else g
  | .reconnectServer => if s.registered = true then reconnect s g else g
  | .clientSendData _ _ => if s.registered = true then startOp .write s g else g
  | .clientSendFormatData _ _ _ =>
    if s.registered = true ∧ ¬ (s.transport = .tcp ∧ s.isConnect = false) then startOp .write s g
    else g
  | .timerSnapshot | .tick _ => g

end Tags

/-- Who posts a task or calls `do_message`. -/
inductive Source
  /-- The handler of an operation. -/
  | handler (tag : OpTag) (c : Completion)
  /-- A call of the manager. -/
  | call
  /-- `do_check_timeout`. -/
  | timeout
  deriving DecidableEq

/-- A client together with a record of where everything comes from. The record has no influence on
the client, so that every run of the client is one of the tracked client as well. -/
structure Tracked (F : Type*) where
  client : Client F
  tags : Tags := {}
  -- the sources of the tasks posted so far, and of the calls of `do_message`
  sources : List Source := []
  origins : List Source := []
  -- the completions whose handlers have run
  handled : List (OpTag × Completion) := []

namespace Tracked

open Machine Pool

variable {F : Type*} {fmt : IpacketFormat F}

/-- The completion that a step handles. -/
def handles (t : Tracked F) : Client.Action → List (OpTag × Completion)
  | .handle i =>
    match t.client.completed[i]?, t.tags.completed[i]? with
    | some c, some tag => [(tag, c)]
    | _, _ => []
  | _ => []

/-- The source of what a step posts. -/
def postedBy (t : Tracked F) (a : Client.Action) : Source :=
  match t.handles a with
  | (tag, c) :: _ => .handler tag c
  | [] => .call

/-- The source of the call of `do_message` in a step. -/
def calledBy (t : Tracked F) : Client.Action → Source
  | .runTask => t.sources[t.client.ran]?.getD .call
  | _ => .timeout

def step (fmt : IpacketFormat F) (t : Tracked F) (a : Client.Action) : Option (Tracked F) :=
  (Client.step fmt t.client a).map fun client =>
    { client := client
      tags := t.tags.after t.client a
      sources := t.sources ++
        List.replicate (client.posted.length - t.client.posted.length) (t.postedBy a)
      origins := t.origins ++
        List.replicate (client.messages.length - t.client.messages.length) (t.calledBy a)
      handled := t.handled ++ t.handles a }

/-- The client when `start` has returned, with its first connect under way. -/
def start (transport : Transport) (connectId : Nat) (timerCheckSeconds : Int) (pf : F) :
    Tracked F where
  client := Client.start transport connectId timerCheckSeconds pf
  tags := { attempt := 1, serial := 1, outstanding := [⟨0, 1, .connect⟩] }

/-- A tracked client of the example program, once `start` has returned. -/
def started (transport : Transport) : Tracked CpacketFormat :=
  start transport 1 30 (CpacketFormat.new (Vector.replicate maxBufferSize 0))

/-- A tracked step is a step of the client. -/
theorem step_client (t : Tracked F) (a : Client.Action) :
    (step fmt t a).map client = Client.step fmt t.client a := by
  rw [step, Option.map_map]
  exact Option.map_id'

theorem run_client {t t' : Tracked F} {as : List Client.Action}
    (h : run (step fmt) t as = some t') :
    run (Client.step fmt) t.client as = some t'.client := by
  rw [← run_map client step_client, h]
  rfl

/-- Every run of the client can be tracked. -/
theorem exists_tracked {t : Tracked F} {s : Client F} {as : List Client.Action}
    (h : run (Client.step fmt) t.client as = some s) :
    ∃ t', run (step fmt) t as = some t' ∧ t'.client = s := by
  rw [← run_map client step_client] at h
  exact Option.map_eq_some_iff.mp h

/-! ## Tags and operations -/

/-- The operations and their tags are related one by one. -/
structure Tagged (P : Op → OpTag → Prop) (Q : Completion → OpTag → Prop) (s : Client F)
    (g : Tags) : Prop where
  outstanding : List.Forall₂ P s.outstanding g.outstanding
  completed : List.Forall₂ Q s.completed g.completed

/-- The relations go with the attempt that the socket belongs to. -/
structure Handed (P : Op → OpTag → Prop) (Q : Completion → OpTag → Prop) (attempt : Nat) :
    Prop where
  -- an operation hands its tag on when it ends
  ends : ∀ op c tag, P op tag → c.kind = op.kind → Q c tag
  -- a new one belongs to the attempt
  fresh : ∀ op serial, op.kind ≠ .connect → P op ⟨serial, attempt, op.kind⟩
  -- the rest of a write keeps the tag of the write
  rest : ∀ bytes sendLength tag, Q (.sent bytes sendLength) tag → bytes.drop sendLength ≠ [] →
    P (.write (bytes.drop sendLength)) tag

variable {P : Op → OpTag → Prop} {Q : Completion → OpTag → Prop} {s : Client F} {g : Tags}

theorem Handed.failed {attempt : Nat} (hand : Handed P Q attempt) {op : Op} {tag : OpTag}
    (h : P op tag) : Q op.failed tag := hand.ends op _ tag h op.kind_failed

/-- On a closed socket the operation ends as one of its kind. -/
theorem Handed.onClosed {attempt : Nat} (hand : Handed P Q attempt) {op : Op} {tag : OpTag}
    (h : P op tag) (transport : Transport) : Q (op.onClosed transport) tag := by
  rcases op.onClosed_cases transport with hfailed | ⟨rfl, hsent⟩
  · rw [hfailed]
    exact hand.failed h
  · rw [hsent]
    exact hand.ends (.write []) (.sent [] 0) tag h rfl

theorem tagged_launch {attempt : Nat} (hand : Handed P Q attempt) {op : Op} {tag : OpTag}
    (hop : P op tag) (h : Tagged P Q s g) :
    Tagged P Q (Client.startOp op s) (Tags.launch s tag g) := by
  unfold Client.startOp Tags.launch
  split
  · exact ⟨h.outstanding, forall₂_concat h.completed (hand.onClosed hop _)⟩
  · exact ⟨forall₂_concat h.outstanding hop, h.completed⟩

theorem tagged_startOp (hand : Handed P Q g.attempt) {op : Op} (hop : op.kind ≠ .connect)
    (h : Tagged P Q s g) : Tagged P Q (Client.startOp op s) (Tags.startOp op.kind s g) := by
  have hnext : Tagged P Q s { g with serial := g.serial + 1 } := ⟨h.outstanding, h.completed⟩
  exact tagged_launch hand (hand.fresh op g.serial hop) hnext

theorem tagged_closeSocket {attempt : Nat} (hand : Handed P Q attempt) (h : Tagged P Q s g) :
    Tagged P Q (Client.closeSocket s) (Tags.closeSocket g) := by
  refine ⟨.nil, List.rel_append h.completed ?_⟩
  rw [List.forall₂_map_left_iff]
  exact h.outstanding.imp fun _ _ => hand.failed

/-- An operation ends. -/
theorem tagged_ended {attempt i : Nat} (hand : Handed P Q attempt) {op : Op} {c : Completion}
    (hop : s.outstanding[i]? = some op) (hc : c.kind = op.kind) (socket : SocketState)
    (buffer : List UInt8 × List (List UInt8)) (h : Tagged P Q s g) :
    Tagged P Q (Client.ended i c socket buffer s) (Tags.complete i g) := by
  obtain ⟨tag, htag, hP⟩ := forall₂_getElem? h.outstanding hop
  rw [Tags.complete, htag]
  exact ⟨forall₂_eraseIdx h.outstanding i, forall₂_concat h.completed (hand.ends op c tag hP hc)⟩

theorem kind_of_endsAs {op : Op} {c : Completion} {socket : SocketState}
    {buffer : List UInt8 × List (List UInt8)} (h : Client.EndsAs s op c socket buffer) :
    c.kind = op.kind := by cases h <;> rfl

theorem tagged_complete {attempt i : Nat} (hand : Handed P Q attempt) {outcome : Outcome}
    {s' : Client F} (h : Tagged P Q s g) (hs : Client.complete i outcome s = some s') :
    Tagged P Q s' (Tags.complete i g) := by
  obtain ⟨op, c, socket, buffer, hop, hends, rfl⟩ := Client.ends_of_complete hs
  exact tagged_ended hand hop (kind_of_endsAs hends) socket buffer h

/-- The fields that hold no operation do not matter. -/
theorem tagged_congr {s' : Client F} (h : Tagged P Q s g)
    (houtstanding : s'.outstanding = s.outstanding) (hcompleted : s'.completed = s.completed) :
    Tagged P Q s' g := ⟨houtstanding ▸ h.outstanding, hcompleted ▸ h.completed⟩

theorem tagged_connectionLost {attempt : Nat} (hand : Handed P Q attempt) (h : Tagged P Q s g) :
    Tagged P Q (Client.connectionLost s)
      (if s.isClientClose = false then Tags.closeSocket g else g) := by
  by_cases hstays : s.isClientClose = false
  · rw [if_pos hstays, Client.connectionLost]
    rw [if_pos (show (Client.post [.message .disconnect] s).isClientClose = false from hstays)]
    have hposted : Tagged P Q (Client.post [.message .disconnect] s) g := tagged_congr h rfl rfl
    exact tagged_congr (tagged_closeSocket hand hposted) rfl rfl
  · rw [if_neg hstays, Client.connectionLost]
    rw [if_neg (show ¬ (Client.post [.message .disconnect] s).isClientClose = false from hstays)]
    exact tagged_congr h rfl rfl

/-- **The handlers.** A read that a handler starts is of the attempt that is under way; a write that
it goes on with is the same one, with its own tag; and the operations that it aborts keep theirs as
they fail. -/
theorem tagged_handler (hand : Handed P Q g.attempt) {c : Completion} {tag : OpTag}
    {s' : Client F} (h : Tagged P Q s g) (hc : Q c tag) (hs : Client.Handles fmt s c s') :
    Tagged P Q s' (Tags.handler s tag c g) := by
  -- a handler that reads on, whatever else it has set
  have hread : ∀ s₁ : Client F, s₁.outstanding = s.outstanding → s₁.completed = s.completed →
      s₁.socket = s.socket → Tagged P Q (Client.doRead s₁) (Tags.startOp .read s g) := by
    intro s₁ houtstanding hcompleted hsocket
    have hsame : Tags.startOp .read s g = Tags.startOp .read s₁ g := by
      rw [Tags.startOp, Tags.launch, ← hsocket, Tags.startOp, Tags.launch]
    rw [hsame]
    have hcongr := tagged_congr h houtstanding hcompleted
    have hresult : Tagged P Q (Client.startOp .read s₁) (Tags.startOp Op.read.kind s₁ g) :=
      tagged_startOp hand (by decide) hcongr
    exact hresult
  cases hs with
  | connected => exact hread _ rfl rfl rfl
  | connectFailed => exact tagged_congr h rfl rfl
  | received => exact hread _ rfl rfl rfl
  | readFailed => exact tagged_connectionLost hand h
  | sentAll rest sendLength hdone =>
    show Tagged P Q _ (if rest.drop sendLength = [] then g else Tags.launch s tag g)
    rw [if_pos hdone]
    exact tagged_congr h rfl rfl
  | sentPart rest sendLength hrest =>
    show Tagged P Q _ (if rest.drop sendLength = [] then g else Tags.launch s tag g)
    rw [if_neg hrest]
    exact tagged_launch hand (hand.rest rest sendLength tag hc hrest) h
  | writeFailed => exact tagged_congr (tagged_connectionLost hand h) rfl rfl

theorem reconnect_tags_of_set (hflag : ¬ s.isConnect = false) : Tags.reconnect s g = g :=
  if_neg hflag

/-- A step that starts no connect. -/
theorem tagged_of_step {s' : Client F} {a : Client.Action} (hand : Handed P Q g.attempt)
    (h : Tagged P Q s g) (hno : ¬ Client.startsConnect s a)
    (hs : Client.step fmt s a = some s') : Tagged P Q s' (g.after s a) := by
  cases Client.does_of_step hs with
  | complete hcomplete => exact tagged_complete hand h hcomplete
  | @handle i c _ hget hhandler =>
    obtain ⟨tag, htag, hQ⟩ := forall₂_getElem? h.completed hget
    show Tagged P Q s' (match s.completed[i]?, g.completed[i]? with
      | some c, some tag => Tags.handler s tag c { g with completed := g.completed.eraseIdx i }
      | _, _ => g)
    rw [hget, htag]
    have htaken : Tagged P Q { s with completed := s.completed.eraseIdx i }
        { g with completed := g.completed.eraseIdx i } :=
      ⟨h.outstanding, forall₂_eraseIdx h.completed i⟩
    have hresult := tagged_handler (g := { g with completed := g.completed.eraseIdx i }) hand
      htaken hQ hhandler
    exact hresult
  | message e hget =>
    show Tagged P Q _ (if s.posted[s.ran]? = some .reconnect then Tags.reconnect s g else g)
    rw [if_neg (by rw [hget]; exact nofun)]
    exact tagged_congr h rfl rfl
  | reconnect hget =>
    have hflag : ¬ s.isConnect = false := fun hflag => hno ⟨hget, hflag⟩
    show Tagged P Q _ (if s.posted[s.ran]? = some .reconnect then Tags.reconnect s g else g)
    rw [if_pos hget, reconnect_tags_of_set hflag,
      Client.reconnect_eq_self (s := { s with ran := s.ran + 1 }) hflag]
    exact tagged_congr h rfl rfl
  | late => exact tagged_congr h rfl rfl
  | inTime => exact h
  | timeCheck seconds hsession hflag =>
    show Tagged P Q _ (Tags.reconnect s g)
    rw [reconnect_tags_of_set (by rw [hflag]; decide)]
    exact tagged_congr h rfl rfl
  | timeReconnect seconds hsession hflag =>
    exact absurd ⟨by rw [hsession]; rfl, hflag⟩ hno
  | closeClient hreg =>
    show Tagged P Q _ (if s.registered = true then Tags.closeSocket g else g)
    rw [if_pos hreg]
    exact tagged_congr (tagged_closeSocket hand h) rfl rfl
  | reconnectServer hreg =>
    have hflag : ¬ s.isConnect = false := fun hflag => hno ⟨hreg, hflag⟩
    show Tagged P Q _ (if s.registered = true then Tags.reconnect s g else g)
    rw [if_pos hreg, reconnect_tags_of_set hflag, Client.reconnect_eq_self hflag]
    exact h
  | sendData data hreg =>
    show Tagged P Q _ (if s.registered = true then Tags.startOp .write s g else g)
    rw [if_pos hreg]
    have hresult : Tagged P Q (Client.startOp (.write data) s)
        (Tags.startOp (Op.write data).kind s g) := tagged_startOp hand (by simp [Op.kind]) h
    exact hresult
  | refused hreg hclosed =>
    show Tagged P Q _ (if s.registered = true ∧ ¬ (s.transport = .tcp ∧ s.isConnect = false) then
      Tags.startOp .write s g else g)
    rw [if_neg fun hcase => hcase.2 hclosed]
    exact tagged_congr h rfl rfl
  | sendFormatData r hreg hopen =>
    show Tagged P Q _ (if s.registered = true ∧ ¬ (s.transport = .tcp ∧ s.isConnect = false) then
      Tags.startOp .write s g else g)
    rw [if_pos ⟨hreg, hopen⟩]
    have hcongr : Tagged P Q { s with packetFormat := r.2 } g := tagged_congr h rfl rfl
    have hresult : Tagged P Q (Client.startOp (.write r.1) { s with packetFormat := r.2 })
        (Tags.startOp (Op.write r.1).kind { s with packetFormat := r.2 } g) :=
      tagged_startOp hand (by simp [Op.kind]) hcongr
    exact hresult
  | @unknown a hreg ha =>
    -- the tags are not touched either
    have hsame : g.after s a = g := by
      cases a with
      | closeClient => exact if_neg hreg
      | reconnectServer => exact if_neg hreg
      | clientSendData => exact if_neg hreg
      | clientSendFormatData => exact if_neg fun hcase => hreg hcase.1
      | _ => cases ha
    rw [hsame]
    exact h
  | tick d => exact tagged_congr h rfl rfl

/-- What `async_connect` does to the operations. -/
theorem startConnect_ops (s : Client F) :
    (Client.startConnect s).outstanding = s.outstanding ++ [.connect (decide s.busy)] ∧
      (Client.startConnect s).completed = s.completed := by
  by_cases hbusy : s.busy
  · rw [Client.startConnect_doomed hbusy.1 hbusy.2, decide_eq_true hbusy]
    exact ⟨rfl, rfl⟩
  · rw [decide_eq_false hbusy]
    unfold Client.startConnect
    split
    case h_1 htcp hsocket => exact absurd ⟨htcp, .inl hsocket⟩ hbusy
    case h_2 htcp hsocket => exact absurd ⟨htcp, .inr hsocket⟩ hbusy
    case h_3 => exact ⟨rfl, rfl⟩
    case h_4 => exact ⟨rfl, rfl⟩

/-- When `start` has returned the first connect is under way. -/
theorem start_ops (transport : Transport) (connectId : Nat) (timerCheckSeconds : Int) (pf : F) :
    (Client.start transport connectId timerCheckSeconds pf).outstanding = [.connect false] ∧
      (Client.start transport connectId timerCheckSeconds pf).completed = [] := by
  have hfree : ¬ Client.busy
      { transport := transport
        connectId := connectId
        packetFormat := pf
        timerCheckSeconds := timerCheckSeconds : Client F } := by
    rintro ⟨-, hsocket | hsocket⟩ <;> cases hsocket
  obtain ⟨houtstanding, hcompleted⟩ := startConnect_ops
    { transport := transport
      connectId := connectId
      packetFormat := pf
      timerCheckSeconds := timerCheckSeconds : Client F }
  rw [decide_eq_false hfree] at houtstanding
  exact ⟨houtstanding, hcompleted⟩

/-- A step that starts a connect. -/
theorem startsConnect_ops {s' : Client F} {a : Client.Action}
    (hstarts : Client.startsConnect s a) (hs : Client.step fmt s a = some s') :
    s'.outstanding = s.outstanding ++ [.connect (decide s.busy)] ∧ s'.completed = s.completed ∧
      g.after s a = Tags.startConnect s g := by
  obtain ⟨t, rfl, houtstanding, hcompleted, hbusy⟩ := Client.eq_startConnect_of_step hstarts hs
  obtain ⟨houtstanding', hcompleted'⟩ := startConnect_ops t
  refine ⟨?_, hcompleted'.trans hcompleted, ?_⟩
  · rw [houtstanding', houtstanding, decide_eq_decide.mpr hbusy]
  cases a with
  | runTask =>
    obtain ⟨hget, hflag⟩ := hstarts
    show (if s.posted[s.ran]? = some .reconnect then Tags.reconnect s g else g) = _
    rw [if_pos hget]
    exact if_pos hflag
  | timerCheck => exact if_pos hstarts.2
  | reconnectServer =>
    obtain ⟨hreg, hflag⟩ := hstarts
    show (if s.registered = true then Tags.reconnect s g else g) = _
    rw [if_pos hreg]
    exact if_pos hflag
  | complete => exact hstarts.elim
  | handle => exact hstarts.elim
  | timerSnapshot => exact hstarts.elim
  | closeClient => exact hstarts.elim
  | clientSendData => exact hstarts.elim
  | clientSendFormatData => exact hstarts.elim
  | tick => exact hstarts.elim

/-- **Only a connect begins an attempt.** Every other step starts operations of the present attempt,
takes them on to their handlers, or drops them. -/
theorem attempt_of_step {s' : Client F} {a : Client.Action} (hno : ¬ Client.startsConnect s a)
    (hs : Client.step fmt s a = some s') : (g.after s a).attempt = g.attempt := by
  -- an operation that is started is of the attempt that is under way
  have hlaunch : ∀ tag (g : Tags), (Tags.launch s tag g).attempt = g.attempt := by
    intro tag g
    unfold Tags.launch
    split <;> rfl
  cases a with
  | complete i outcome =>
    show (Tags.complete i g).attempt = _
    unfold Tags.complete
    split <;> rfl
  | handle i =>
    show (match s.completed[i]?, g.completed[i]? with
      | some c, some tag => Tags.handler s tag c { g with completed := g.completed.eraseIdx i }
      | _, _ => g).attempt = _
    split
    case h_1 c tag _ _ =>
      cases c with
      | connected => exact hlaunch _ _
      | connectFailed => rfl
      | received bytes => exact hlaunch _ _
      | readFailed =>
        show (if _ then _ else _ : Tags).attempt = _
        split <;> rfl
      | sent rest sendLength =>
        show (if _ then _ else _ : Tags).attempt = _
        split
        · rfl
        · exact hlaunch _ _
      | writeFailed =>
        show (if _ then _ else _ : Tags).attempt = _
        split <;> rfl
    case h_2 => rfl
  | runTask =>
    show (if s.posted[s.ran]? = some .reconnect then Tags.reconnect s g else g).attempt = _
    split
    -- a `reconnect` that starts nothing leaves the tags as they are
    case isTrue hget => rw [reconnect_tags_of_set fun hflag => hno ⟨hget, hflag⟩]
    case isFalse => rfl
  | timerCheck =>
    obtain ⟨seconds, hget, -⟩ := Option.map_eq_some_iff.mp hs
    show (Tags.reconnect s g).attempt = _
    rw [reconnect_tags_of_set fun hflag => hno ⟨by rw [hget]; rfl, hflag⟩]
  | reconnectServer =>
    show (if s.registered = true then Tags.reconnect s g else g).attempt = _
    split
    case isTrue hreg => rw [reconnect_tags_of_set fun hflag => hno ⟨hreg, hflag⟩]
    case isFalse => rfl
  | closeClient =>
    show (if s.registered = true then Tags.closeSocket g else g).attempt = _
    split <;> rfl
  | clientSendData sendBuff sendSize =>
    show (if s.registered = true then Tags.startOp .write s g else g).attempt = _
    split
    · exact hlaunch _ _
    · rfl
  | clientSendFormatData commandId sendBuff sendSize =>
    show (if s.registered = true ∧ ¬ (s.transport = .tcp ∧ s.isConnect = false) then
      Tags.startOp .write s g else g).attempt = _
    split
    · exact hlaunch _ _
    · rfl
  | timerSnapshot => rfl
  | tick d => rfl

/-- The connect gets its own tag. -/
theorem tagged_startsConnect {s' : Client F} {a : Client.Action}
    (hstarts : Client.startsConnect s a) (hs : Client.step fmt s a = some s')
    (h : Tagged P Q s g)
    (hconnect : ∀ attempt, P (.connect (decide s.busy)) ⟨g.serial, attempt, .connect⟩) :
    Tagged P Q s' (g.after s a) := by
  obtain ⟨houtstanding, hcompleted, htags⟩ := startsConnect_ops (g := g) hstarts hs
  rw [htags]
  refine ⟨?_, ?_⟩
  · rw [houtstanding]
    exact forall₂_concat h.outstanding (hconnect _)
  · rw [hcompleted]
    exact h.completed

/-! ## The tags are those of the operations -/

/-- Every operation has a tag of its kind. -/
def Aligned (t : Tracked F) : Prop :=
  Tagged (fun op tag => op.kind = tag.kind) (fun c tag => c.kind = tag.kind) t.client t.tags

theorem aligned_step {t t' : Tracked F} {a : Client.Action} (h : Aligned t)
    (hs : step fmt t a = some t') : Aligned t' := by
  obtain ⟨s', hs', rfl⟩ := Option.map_eq_some_iff.mp hs
  by_cases hstarts : Client.startsConnect t.client a
  · exact tagged_startsConnect hstarts hs' h fun _ => rfl
  · refine tagged_of_step ⟨fun op c tag hop hc => hc.trans hop, fun _ _ _ => rfl, ?_⟩ h hstarts hs'
    exact fun _ _ _ hsent _ => hsent

theorem aligned_start (transport : Transport) (connectId : Nat) (timerCheckSeconds : Int) (pf : F) :
    Aligned (start transport connectId timerCheckSeconds pf) := by
  obtain ⟨houtstanding, hcompleted⟩ := start_ops transport connectId timerCheckSeconds pf
  constructor
  · show List.Forall₂ _ (Client.start transport connectId timerCheckSeconds pf).outstanding _
    rw [houtstanding]
    exact .cons rfl .nil
  · show List.Forall₂ _ (Client.start transport connectId timerCheckSeconds pf).completed _
    rw [hcompleted]
    exact .nil

end Tracked

end PssClient
