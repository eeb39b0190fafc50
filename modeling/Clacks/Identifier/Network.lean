import Clacks.Identifier.Accounting
import Clacks.Identifier.Exchange
import Mathlib.Data.List.Nodup

/-!
# Any number of clients and the single-threaded service

Every client runs one call in its own process.  The service accepts one connection
after another from its listen queue and serves each to its end before it accepts
the next; a connected client may write before it is accepted.  All steps of all
processes interleave freely.

Main results:

- Theorem {lit}`Reachable.invariant`: on every connection the two ends are in step,
  and the listen queue holds exactly the connections that wait for the service.
- Theorem {lit}`lock_step`: each read returns exactly one write of its own
  connection, at most one write is unread, and no state is stuck.
-/

namespace Clacks
namespace Identifier

open Foundation Program LockStep Client

/-- How far the connection of a client has come: no socket yet, a socket, waiting
in the listen queue, being served, or left by the service. -/
inductive Phase where
  | fresh
  | opened
  | pending
  | accepted
  | served
deriving DecidableEq

/-- The service, its listen queue, and one connection for each client. -/
structure Net (ι : Type) where
  service : Service
  backlog : List ι
  phase : ι → Phase
  link : ι → Link (Option Service)

variable {ι : Type} [DecidableEq ι]

/-- The service has started and no client has done anything. -/
def Net.initial (calls : ι → Call) (service : Service) : Net ι where
  service := service
  backlog := []
  phase _ := .fresh
  link i := Link.fresh (calls i).program (.done none)

/-- The connection of client {lit}`i` moves to {lit}`phase` and {lit}`link`. -/
def Net.set (n : Net ι) (i : ι) (phase : Phase) (link : Link (Option Service)) : Net ι :=
  { n with
    phase := Function.update n.phase i phase
    link := Function.update n.link i link }

/-- One step of one process, no system call failing.  The listen queue of
{lit}`listen(dom_sock, 5)` lets a client in while at most five others wait; the
memory {lit}`frame` that a new connection meets is arbitrary. -/
inductive Net.Step (lib : Libuuid) (n : Net ι) : Net ι → Prop where
  | socket (i : ι) (fd : Nat) {k : Fd → StreamProgram (Option Service)}
      (hphase : n.phase i = .fresh) (hprog : (n.link i).prog .client = .ask .socket k) :
      Step lib n (n.set i .opened (Link.fresh (k (some fd)) (.done none)))
  | connect (i : ι) {fd : Nat} {path : List UInt8} {k : Bool → StreamProgram (Option Service)}
      (hphase : n.phase i = .opened)
      (hprog : (n.link i).prog .client = .ask (.connect (some fd) path) k)
      (hroom : n.backlog.length ≤ 5) :
      Step lib n { n.set i .pending (Link.fresh (k true) (.done none)) with
        backlog := n.backlog ++ [i] }
  | client (i : ι) {l : Link (Option Service)}
      (hphase : n.phase i = .pending ∨ n.phase i = .accepted ∨ n.phase i = .served)
      (hstep : (n.link i).Step .client l) : Step lib n (n.set i (n.phase i) l)
  | accept (i : ι) {rest : List ι} (frame : Frame) (sockMsg : Nat)
      (hbacklog : n.backlog = i :: rest) (hidle : ∀ j, n.phase j ≠ .accepted) :
      Step lib n { n.set i .accepted
          ((n.link i).attach (serverProgram lib frame sockMsg n.service)) with
        backlog := rest }
  | server (i : ι) {l : Link (Option Service)} (hphase : n.phase i = .accepted)
      (hstep : (n.link i).Step .server l) : Step lib n (n.set i .accepted l)
  | next (i : ι) {s : Service} (hphase : n.phase i = .accepted)
      (hdone : (n.link i).prog .server = .done (some s)) :
      Step lib n { n.set i .served (n.link i) with service := s }

/-- The states of all interleavings. -/
def Reachable (lib : Libuuid) (calls : ι → Call) (service : Service) : Net ι → Prop :=
  Relation.ReflTransGen (Net.Step lib) (Net.initial calls service)

/-! ## The invariant -/

/-- What the connection of a client looks like in each phase.  While it waits in the
listen queue it is in step with the service whatever state the service will have
when it is accepted. -/
def Stage (lib : Libuuid) (call : Call) : Phase → Link (Option Service) → Prop
  | .fresh, l => l = Link.fresh call.program (.done none)
  | .opened, l => ∃ fd k, l = Link.fresh (.ask (.connect (some fd) clIdDomSocket) k) (.done none) ∧
      k true = connected fd call.program
  | .pending, l => ∀ frame sockMsg s, Sync (call.fin lib frame s) call.script
      (l.attach (serverProgram lib frame sockMsg s))
  | .accepted, l => ∃ frame s, Sync (call.fin lib frame s) call.script l
  | .served, l => ∃ frame s, Sync (call.fin lib frame s) call.script l ∧
      ∃ result, l.prog .server = .done result

/-- The invariant of all interleavings. -/
structure Net.Invariant (lib : Libuuid) (calls : ι → Call) (n : Net ι) : Prop where
  stage : ∀ i, Stage lib (calls i) (n.phase i) (n.link i)
  waiting : ∀ i, i ∈ n.backlog ↔ n.phase i = .pending
  nodup : n.backlog.Nodup

section Invariant

variable {lib : Libuuid} {calls : ι → Call} {service : Service} {n n' : Net ι}

/-- The connections of the other clients keep their stage. -/
theorem Net.Invariant.set_stage (h : n.Invariant lib calls) {i : ι} {phase : Phase}
    {l : Link (Option Service)} (hstage : Stage lib (calls i) phase l) (j : ι) :
    Stage lib (calls j) ((n.set i phase l).phase j) ((n.set i phase l).link j) := by
  by_cases hji : j = i
  · subst hji
    simpa [Net.set] using hstage
  · simpa [Net.set, hji] using h.stage j

/-- The listen queue keeps its meaning when a connection does not enter or leave it. -/
theorem Net.Invariant.set_waiting (h : n.Invariant lib calls) {i : ι} {phase : Phase}
    (l : Link (Option Service)) (hsame : n.phase i = .pending ↔ phase = .pending) (j : ι) :
    j ∈ n.backlog ↔ (n.set i phase l).phase j = .pending := by
  rw [h.waiting j]
  by_cases hji : j = i
  · subst hji
    simpa [Net.set] using hsame
  · simp [Net.set, hji]

/-- A client that moves keeps the stage of its connection. -/
theorem Stage.client {call : Call} {phase : Phase} {l l' : Link (Option Service)}
    (h : Stage lib call phase l) (hstep : l.Step .client l')
    (hphase : phase = .pending ∨ phase = .accepted ∨ phase = .served) :
    Stage lib call phase l' := by
  rcases hphase with rfl | rfl | rfl
  · intro frame sockMsg s
    exact (h frame sockMsg s).step call.framed (hstep.attach _)
  · rcases h with ⟨frame, s, hsync⟩
    exact ⟨frame, s, hsync.step call.framed hstep⟩
  · rcases h with ⟨frame, s, hsync, result, hresult⟩
    rcases hstep.prog_eq with ⟨_, _, _, _, _, hother⟩
    exact ⟨frame, s, hsync.step call.framed hstep, result, hother.trans hresult⟩

/-- Every step of every process keeps the invariant. -/
theorem Net.Invariant.step (h : n.Invariant lib calls) (hstep : n.Step lib n') :
    n'.Invariant lib calls := by
  cases hstep with
  | socket i fd hphase hprog =>
      have hstage := h.stage i
      simp only [hphase, Stage] at hstage
      refine ⟨h.set_stage ?_, h.set_waiting _ (by simp [hphase]), h.nodup⟩
      simp only [hstage, Link.fresh, Call.program_eq] at hprog
      cases hprog
      exact ⟨fd, _, rfl, (calls i).connected_program fd ▸ rfl⟩
  | connect i hphase hprog hroom =>
      have hstage := h.stage i
      simp only [hphase, Stage] at hstage
      rcases hstage with ⟨fd, k, hlink, hk⟩
      simp only [hlink, Link.fresh] at hprog
      cases hprog
      have hnew : i ∉ n.backlog := by
        rw [h.waiting i, hphase]
        simp
      refine ⟨h.set_stage ?_, ?_, ?_⟩
      · intro frame sockMsg s
        rw [hk, Link.fresh_attach]
        exact sync_fresh lib frame _ sockMsg s (calls i)
      · intro j
        by_cases hji : j = i
        · simp [Net.set, hji]
        · simp [Net.set, hji, h.waiting j]
      · refine List.nodup_append.2 ⟨h.nodup, by simp, ?_⟩
        rintro j hj _ hi rfl
        exact hnew (List.mem_singleton.1 hi ▸ hj)
  | client i hphase hstep =>
      exact ⟨h.set_stage ((h.stage i).client hstep hphase), h.set_waiting _ Iff.rfl, h.nodup⟩
  | accept i frame sockMsg hbacklog hidle =>
      have hnodup := h.nodup
      rw [hbacklog, List.nodup_cons] at hnodup
      have hphase : n.phase i = .pending := by
        rw [← h.waiting i, hbacklog]
        exact List.mem_cons_self
      have hstage := h.stage i
      rw [hphase] at hstage
      refine ⟨h.set_stage ⟨frame, n.service, hstage frame sockMsg n.service⟩, ?_, hnodup.2⟩
      intro j
      by_cases hji : j = i
      · simp [Net.set, hji, hnodup.1]
      · rw [show j ∈ _ ↔ j ∈ n.backlog by simp [hbacklog, hji], h.waiting j]
        simp [Net.set, hji]
  | server i hphase hstep =>
      have hstage := h.stage i
      rw [hphase] at hstage
      rcases hstage with ⟨frame, s, hsync⟩
      refine ⟨h.set_stage ⟨frame, s, hsync.step (calls i).framed hstep⟩, ?_, h.nodup⟩
      exact h.set_waiting _ (by simp [hphase])
  | next i hphase hdone =>
      have hstage := h.stage i
      rw [hphase] at hstage
      rcases hstage with ⟨frame, s, hsync⟩
      refine ⟨h.set_stage ⟨frame, s, hsync, _, hdone⟩, ?_, h.nodup⟩
      exact h.set_waiting (n.link i) (by simp [hphase])

/-- The invariant holds in every interleaving. -/
theorem Reachable.invariant (h : Reachable lib calls service n) : n.Invariant lib calls := by
  induction h with
  | refl => exact ⟨fun _ => rfl, by simp [Net.initial], by simp [Net.initial]⟩
  | tail _ hstep ih => exact ih.step hstep

end Invariant

/-! ## What the invariant gives -/

/-- Everything that happens on a connection of a call that runs to its end. -/
def Call.Transcript : Call → List Happening → Prop
  | newId _, history => ∃ id, id.length = 37 ∧ history =
      [.wrote .client clIdGet, .got .server clIdGet, .wrote .server id, .got .client id]
  | tagId clId derrived, history => history =
      [.wrote .client clIdTag, .got .server clIdTag,
        .wrote .server continueCommand, .got .client continueCommand,
        .wrote .client clId.bytes, .got .server clId.bytes,
        .wrote .server continueCommand, .got .client continueCommand,
        .wrote .client derrived.bytes, .got .server (derrived.bytes.take 128)]

theorem Call.transcript_of_script (call : Call) {full : List (Turn × List UInt8)}
    (hscript : full.map Prod.fst = call.script) (hall : ∀ x ∈ full, x.1.allowed x.2) :
    call.Transcript (exchanges full) := by
  cases call with
  | newId buf =>
      simp only [script, List.map_eq_cons_iff, List.map_eq_nil_iff] at hscript
      rcases hscript with ⟨⟨_, get⟩, _, rfl, rfl, ⟨_, id⟩, _, rfl, rfl, rfl⟩
      simp only [List.mem_cons, List.not_mem_nil, or_false, forall_eq_or_imp, forall_eq] at hall
      rcases hall with ⟨rfl, hid⟩
      refine ⟨id, hid, ?_⟩
      have hget : clIdGet.take 1024 = clIdGet := by decide
      have htake : id.take 1024 = id := List.take_of_length_le (by omega)
      simp [exchanges, hget, htake, Side.other]
  | tagId clId derrived =>
      simp only [script, List.map_eq_cons_iff, List.map_eq_nil_iff] at hscript
      rcases hscript with ⟨⟨_, tag⟩, _, rfl, rfl, ⟨_, go⟩, _, rfl, rfl, ⟨_, uuid⟩, _, rfl, rfl,
        ⟨_, go'⟩, _, rfl, rfl, ⟨_, name⟩, _, rfl, rfl, rfl⟩
      simp only [List.mem_cons, List.not_mem_nil, or_false, forall_eq_or_imp, forall_eq] at hall
      rcases hall with ⟨rfl, rfl, rfl, rfl, rfl⟩
      have htag : clIdTag.take 1024 = clIdTag := by decide
      have hgo : continueCommand.take 4 = continueCommand := by decide
      have huuid : clId.bytes.take 37 = clId.bytes :=
        List.take_of_length_le (Nat.le_of_eq clId.length_eq)
      simp [Transcript, exchanges, htag, hgo, huuid, Side.other]

theorem Call.possible (call : Call) : ∀ t ∈ call.script, ∃ bytes, t.allowed bytes := by
  cases call with
  | newId buf => simpa [script] using ⟨List.replicate 37 0, by simp⟩
  | tagId clId derrived => simp [script]

/-- A connection that is in step has seen a prefix of the transcript of its call. -/
theorem history_of_sync {lib : Libuuid} {call : Call} {frame : Frame} {s : Service}
    {l : Link (Option Service)} (h : Sync (call.fin lib frame s) call.script l) :
    (∃ full, call.Transcript full ∧ l.history <+: full) ∧ unread l.history ≤ 1 := by
  rcases h.history_prefix call.possible with ⟨full, hscript, hall, hfront⟩
  exact ⟨⟨_, call.transcript_of_script hscript hall, hfront⟩, h.unread_le_one⟩

theorem Call.transcript_exists (call : Call) : ∃ full, call.Transcript full := by
  cases call with
  | newId buf => exact ⟨_, List.replicate 37 0, by simp, rfl⟩
  | tagId clId derrived => exact ⟨_, rfl⟩

/-- In every phase the history of a connection is a prefix of a transcript. -/
theorem Stage.history {lib : Libuuid} {call : Call} {phase : Phase} {l : Link (Option Service)}
    (h : Stage lib call phase l) (s : Service) :
    (∃ full, call.Transcript full ∧ l.history <+: full) ∧ unread l.history ≤ 1 := by
  have hnone : ∀ p : StreamProgram (Option Service), (∃ full, call.Transcript full ∧
      (Link.fresh p (.done none)).history <+: full) ∧
      unread (Link.fresh p (.done none)).history ≤ 1 := by
    intro p
    rcases call.transcript_exists with ⟨full, hfull⟩
    exact ⟨⟨full, hfull, List.nil_prefix⟩, by simp [Link.fresh, unread]⟩
  cases phase with
  | fresh =>
      rw [show l = _ from h]
      exact hnone _
  | opened =>
      rcases h with ⟨fd, k, rfl, _⟩
      exact hnone _
  | pending =>
      have hsync := history_of_sync (h Frame.zero 0 s)
      exact hsync
  | accepted =>
      rcases h with ⟨frame, s, hsync⟩
      exact history_of_sync hsync
  | served =>
      rcases h with ⟨frame, s, hsync, _⟩
      exact history_of_sync hsync

section Progress

variable {lib : Libuuid} {calls : ι → Call} {service : Service} {n : Net ι}

/-- While a connection is being served, one of its ends or the service can move. -/
theorem Net.Invariant.progress_accepted (h : n.Invariant lib calls) {i : ι}
    (hphase : n.phase i = .accepted) : ∃ n', n.Step lib n' := by
  have hstage := h.stage i
  rw [hphase] at hstage
  rcases hstage with ⟨frame, s, hsync⟩
  rcases hsync.progress (calls i).framed with ⟨side, l, hstep⟩ | hfinished
  · cases side with
    | client => exact ⟨_, .client i (.inr (.inl hphase)) hstep⟩
    | server => exact ⟨_, .server i hphase hstep⟩
  · rcases (hfinished .server).2 with ⟨result, hdone, hresult⟩
    rw [show result = _ from hresult] at hdone
    exact ⟨_, .next i hphase hdone⟩

/-- A client that has not returned can move when the service is idle and nobody waits. -/
theorem Net.Invariant.progress_idle (h : n.Invariant lib calls) (hbacklog : n.backlog = [])
    (hidle : ∀ i, n.phase i ≠ .accepted) (i : ι) :
    (∃ n', n.Step lib n') ∨
      n.phase i = .served ∧ ∀ side, ∃ result, (n.link i).prog side = .done result := by
  have hstage := h.stage i
  cases hphase : n.phase i with
  | fresh =>
      rw [hphase] at hstage
      have hprog : ∃ k, (n.link i).prog .client = .ask .socket k := by
        rw [show n.link i = _ from hstage]
        simp only [Link.fresh, Call.program_eq]
        exact ⟨_, rfl⟩
      rcases hprog with ⟨k, hprog⟩
      exact .inl ⟨_, .socket i 0 hphase hprog⟩
  | opened =>
      rw [hphase] at hstage
      rcases hstage with ⟨fd, k, hlink, _⟩
      exact .inl ⟨_, .connect i hphase (by rw [hlink]; rfl) (by simp [hbacklog])⟩
  | pending =>
      rw [← h.waiting i, hbacklog] at hphase
      simp at hphase
  | accepted => exact absurd hphase (hidle i)
  | served =>
      rw [hphase] at hstage
      rcases hstage with ⟨frame, s, hsync, result, hdone⟩
      rcases hsync.progress (calls i).framed with ⟨side, l, hstep⟩ | hfinished
      · cases side with
        | client => exact .inl ⟨_, .client i (.inr (.inr hphase)) hstep⟩
        | server => exact absurd hdone hstep.not_done
      · refine .inr ⟨rfl, fun side => ?_⟩
        rcases (hfinished side).2 with ⟨result, hdone, _⟩
        exact ⟨result, hdone⟩

end Progress

/-- Lock-step of the identifier protocol.  In every interleaving of any number of
clients with the service, the history of each connection is a prefix of the
transcript of its call, in which every read returns one write of that connection; at
most one write is unread; and some process can move until every client has returned
and the service has left its connection. -/
theorem lock_step {lib : Libuuid} {calls : ι → Call} {service : Service} {n : Net ι}
    (h : Reachable lib calls service n) :
    (∀ i, (∃ full, (calls i).Transcript full ∧ (n.link i).history <+: full) ∧
      unread (n.link i).history ≤ 1) ∧
    ((∃ n', n.Step lib n') ∨
      ∀ i, n.phase i = .served ∧ ∀ side, ∃ result, (n.link i).prog side = .done result) := by
  have hinv := h.invariant
  refine ⟨fun i => (hinv.stage i).history service, ?_⟩
  by_cases hbusy : ∃ i, n.phase i = .accepted
  · rcases hbusy with ⟨i, hphase⟩
    exact .inl (hinv.progress_accepted hphase)
  · have hidle : ∀ i, n.phase i ≠ .accepted := fun i hphase => hbusy ⟨i, hphase⟩
    cases hbacklog : n.backlog with
    | cons i rest => exact .inl ⟨_, .accept i Frame.zero 0 hbacklog hidle⟩
    | nil =>
        by_cases hmove : ∃ n', n.Step lib n'
        · exact .inl hmove
        · exact .inr fun i => (hinv.progress_idle hbacklog hidle i).resolve_left hmove

/-- Two clients: one asks for an id, the other tags one with an empty derived id. -/
def twoCalls : Bool → Call
  | false => .newId (Buffer.fill 1024 0)
  | true => .tagId (Buffer.fill 37 65) CString.empty

/-- The tagging client has connected and written its command before it was accepted. -/
theorem lock_step_early_write :
    ∃ n, Reachable timeLibuuid twoCalls ⟨timePool 0, []⟩ n ∧
      (n.link true).history = [.wrote .client clIdTag] ∧ ∃ n', n.Step timeLibuuid n' := by
  have hsocket : Reachable timeLibuuid twoCalls ⟨timePool 0, []⟩ _ :=
    .tail .refl (.socket true 3 rfl rfl)
  have hconnect : Reachable timeLibuuid twoCalls ⟨timePool 0, []⟩ _ :=
    .tail hsocket (.connect true rfl rfl (Nat.zero_le 5))
  have hwrite : Reachable timeLibuuid twoCalls ⟨timePool 0, []⟩ _ :=
    .tail hconnect (.client true (.inl rfl) (.write rfl rfl))
  refine ⟨_, hwrite, rfl, ?_⟩
  rcases (lock_step hwrite).2 with hmove | hserved
  · exact hmove
  · exact Phase.noConfusion (hserved true).1

end Identifier
end Clacks
