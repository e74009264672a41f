/-
The attempts to connect that the GUI makes, over whole runs: what is typed, when the button is
pressed, and what the network has for each attempt as it comes back. There is one attempt for each
press while none is under way, with the fields as they are at that moment; a password that is typed
goes out in one LOGIN at most; and what the window shows is what the last attempt came to.
-/
import Thundercrab.Gui.App
import Thundercrab.Imap.Connect

namespace Thundercrab

open Lib Dispatcher Imap

namespace Gui

/-- `connect_and_list` -/
def connectAndList (net : Net) (call : ConnectAndList) : Traced String Act (List FolderSummary) :=
  let backend := connect net call.cfg call.password
  match backend.result with
  | .error e => ⟨.error s!"connect: {e.display}", backend.trace⟩
  | .ok session =>
    match listFolders session.listing with
    | .error e => ⟨.error s!"list_folders: {e.display}", backend.trace⟩
    -- a failed logout is not looked at
    | .ok folders => ⟨.ok folders, backend.trace ++ [.logout call.cfg.imapHost]⟩

/-- What the button sends, in the view of this state. -/
def App.onPress (app : App) : Option Message := if app.connecting then none else some .connect

inductive Event where
  | hostTyped (s : String)
  | userTyped (s : String)
  | passwordTyped (s : String)
  | pressed
  /-- The `i`-th attempt under way comes back, having found this network. -/
  | returned (i : Nat) (net : Net)

/-- The app, the attempts under way, and those that have come back. -/
structure Window where
  app : App := {}
  tasks : List ConnectAndList := []
  finished : List (ConnectAndList × Net) := []

def Window.deliver (w : Window) (m : Message) : Window :=
  { w with app := (w.app.update m).1, tasks := w.tasks ++ (w.app.update m).2 }

def Window.step (w : Window) : Event → Window
  | .hostTyped s => w.deliver (.hostChanged s)
  | .userTyped s => w.deliver (.userChanged s)
  | .passwordTyped s => w.deliver (.passwordChanged s)
  | .pressed =>
    match w.app.onPress with
    | none => w
    | some m => w.deliver m
  | .returned i net =>
    match w.tasks[i]? with
    | none => w
    | some call =>
      { w with tasks := w.tasks.eraseIdx i, finished := w.finished ++ [(call, net)] }.deliver
        (.connected (connectAndList net call).result)

def Window.run (w : Window) (evs : List Event) : Window := evs.foldl Window.step w

/-- The attempts of a run, under way or back. -/
def Window.started (w : Window) : List ConnectAndList := w.finished.map Prod.fst ++ w.tasks

/-- What all the attempts have done on the wire. -/
def Window.acts (w : Window) : List Act := w.finished.flatMap fun x => (connectAndList x.2 x.1).trace

/-- The attempt that the fields of this app make. -/
def App.attempt (app : App) : ConnectAndList := ⟨AccountConfig.plausiden app.host app.user, app.password⟩

/-- The attempt that begins with an event: that of a press while none is under way. -/
def Window.begins (w : Window) : Event → List ConnectAndList
  | .pressed => if w.app.connecting then [] else [w.app.attempt]
  | _ => []

/-- The attempts that begin in a run. -/
def begun : Window → List Event → List ConnectAndList
  | _, [] => []
  | w, ev :: evs => w.begins ev ++ begun (w.step ev) evs

/-- This password is typed. -/
def Event.types (p : String) : Event → Bool
  | .passwordTyped s => s = p
  | _ => false

/-- This password is sent. -/
def sends (p : String) : Act → Bool
  | .login _ _ password => password = p
  | _ => false

/-- The folders of the last attempt that has come back. -/
def foldersOf (finished : List (ConnectAndList × Net)) : List FolderSummary :=
  match finished.getLast? with
  | none => []
  | some (call, net) =>
    match (connectAndList net call).result with
    | .ok folders => folders
    | .error _ => []

/-- What is said of it. -/
def statusOf (finished : List (ConnectAndList × Net)) : String :=
  match finished.getLast? with
  | none => ""
  | some (call, net) =>
    match (connectAndList net call).result with
    | .ok folders => s!"Connected. {folders.length} folders."
    | .error e => s!"Failed: {e}"

variable {net : Net} {call : ConnectAndList} {w : Window} {ev : Event} {evs : List Event}

/-! ## One attempt -/

theorem connectAndList_unsecured (h : ¬ Secured net call.cfg.imapHost) :
    (∃ e, (connectAndList net call).result = .error e) ∧
      (connectAndList net call).trace <+: [.tcp call.cfg.imapHost imapPort, .tls call.cfg.imapHost] := by
  obtain ⟨⟨msg, hmsg⟩, htrace⟩ := connect_unsecured call.password h
  unfold connectAndList
  simp only [hmsg]
  exact ⟨⟨_, rfl⟩, htrace⟩

theorem connectAndList_secured (h : Secured net call.cfg.imapHost) : ∃ after,
    after <+: [.logout call.cfg.imapHost] ∧ (connectAndList net call).trace =
      [.tcp call.cfg.imapHost imapPort, .tls call.cfg.imapHost,
        .login call.cfg.imapHost call.cfg.username call.password] ++ after ∧
      (.logout call.cfg.imapHost ∈ after ↔ ∃ session folders,
        net.login call.cfg.imapHost call.cfg.username call.password = .ok session ∧
          listFolders session.listing = .ok folders) := by
  unfold connectAndList
  simp only [connect_secured call.password h]
  cases net.login call.cfg.imapHost call.cfg.username call.password with
  | error e => exact ⟨[], List.nil_prefix, rfl, by simp⟩
  | ok session =>
    simp only [Except.mapError]
    cases hlist : listFolders session.listing with
    | error e => exact ⟨[], List.nil_prefix, rfl, by simp [hlist]⟩
    | ok folders => exact ⟨[.logout call.cfg.imapHost], List.prefix_rfl, rfl, by simp [hlist]⟩

/-- Short of LOGIN, an attempt has gone as far as the host is reached. -/
theorem mem_unsecured (h : ¬ Secured net call.cfg.imapHost) :
    .tcp call.cfg.imapHost imapPort ∈ (connectAndList net call).trace ∧
      (.tls call.cfg.imapHost ∈ (connectAndList net call).trace ↔
        net.tcpConnect call.cfg.imapHost imapPort = .ok () ∧ net.serverName call.cfg.imapHost = .ok ()) := by
  obtain ⟨⟨msg, hmsg⟩, -⟩ := connect_unsecured call.password h
  have htrace : (connectAndList net call).trace = (connect net call.cfg call.password).trace := by
    unfold connectAndList
    simp only [hmsg]
  rw [htrace]
  unfold connect
  cases htcp : net.tcpConnect call.cfg.imapHost imapPort with
  | error e => simp [htcp]
  | ok _ =>
    cases hname : net.serverName call.cfg.imapHost with
    | error e => simp [htcp, hname]
    | ok _ =>
      cases htls : net.tlsHandshake call.cfg.imapHost with
      | error e => simp [htcp, hname, htls]
      | ok _ => exact absurd ⟨htcp, hname, htls⟩ h

/-- What an attempt does on the wire: its steps in order, and each when those before it have succeeded. -/
structure Stepwise (net : Net) (call : ConnectAndList) (acts : List Act) : Prop where
  tcp : .tcp call.cfg.imapHost imapPort ∈ acts
  order : acts <+: [.tcp call.cfg.imapHost imapPort, .tls call.cfg.imapHost,
    .login call.cfg.imapHost call.cfg.username call.password, .logout call.cfg.imapHost]
  tls : .tls call.cfg.imapHost ∈ acts ↔
    net.tcpConnect call.cfg.imapHost imapPort = .ok () ∧ net.serverName call.cfg.imapHost = .ok ()
  login : .login call.cfg.imapHost call.cfg.username call.password ∈ acts ↔ Secured net call.cfg.imapHost
  logout : .logout call.cfg.imapHost ∈ acts ↔ Secured net call.cfg.imapHost ∧ ∃ session folders,
    net.login call.cfg.imapHost call.cfg.username call.password = .ok session ∧
      listFolders session.listing = .ok folders

theorem connectAndList_stepwise (net : Net) (call : ConnectAndList) :
    Stepwise net call (connectAndList net call).trace := by
  by_cases h : Secured net call.cfg.imapHost
  · obtain ⟨after, hafter, htrace, hlogout⟩ := connectAndList_secured h
    rw [htrace]
    refine ⟨List.mem_cons_self, (List.prefix_append_right_inj _).2 hafter, ?_, ?_, ?_⟩
    · simp [h.tcp, h.name]
    · simp [h]
    · simpa [h] using hlogout
  · obtain ⟨-, htrace⟩ := connectAndList_unsecured h
    obtain ⟨htcp, htls⟩ := mem_unsecured h
    refine ⟨htcp, htrace.trans ⟨_, rfl⟩, htls, ?_, ?_⟩
    · refine iff_of_false (fun hmem => ?_) h
      simpa using htrace.subset hmem
    · refine iff_of_false (fun hmem => ?_) fun hs => h hs.1
      simpa using htrace.subset hmem

/-- The folders that come of an attempt are those the server lists to whom it logs in as. -/
theorem connectAndList_ok {folders : List FolderSummary} (h : (connectAndList net call).result = .ok folders) :
    Secured net call.cfg.imapHost ∧ ∃ session,
      net.login call.cfg.imapHost call.cfg.username call.password = .ok session ∧
        listFolders session.listing = .ok folders := by
  by_cases hs : Secured net call.cfg.imapHost
  · refine ⟨hs, ?_⟩
    unfold connectAndList at h
    simp only [connect_secured call.password hs] at h
    cases hlogin : net.login call.cfg.imapHost call.cfg.username call.password with
    | error e =>
      rw [hlogin] at h
      cases h
    | ok session =>
      simp only [hlogin, Except.mapError] at h
      cases hlist : listFolders session.listing with
      | error e =>
        rw [hlist] at h
        cases h
      | ok folders' =>
        rw [hlist] at h
        cases h
        exact ⟨session, rfl, hlist⟩
  · obtain ⟨e, he⟩ := (connectAndList_unsecured hs).1
    rw [he] at h
    cases h

/-- The password of an attempt is sent once at most, and no other. -/
theorem countP_sends_le (p : String) (net : Net) (call : ConnectAndList) :
    (connectAndList net call).trace.countP (sends p) ≤ if call.password = p then 1 else 0 := by
  refine Nat.le_trans (connectAndList_stepwise net call).order.sublist.countP_le ?_
  by_cases hp : call.password = p <;> simp [sends, hp]

/-! ## Steps -/

theorem App.update_connected_tasks (app : App) (result : Except String (List FolderSummary)) :
    (app.update (.connected result)).2 = [] := by
  cases result with
  | ok folders => rfl
  | error e => rfl

/-- The app and its tasks are those of a run of the app's runtime. -/
def Reached (w : Window) : Prop := ∃ ms, app.Runs ms ⟨w.app, w.tasks⟩

theorem Reached.deliver (h : Reached w) {m : Message} (hno : ∀ result, m ≠ .connected result) :
    Reached (w.deliver m) := by
  obtain ⟨ms, hruns⟩ := h
  exact ⟨ms ++ [m], .step hruns (.input fun _ ⟨result, hm⟩ => hno result hm)⟩

/-- The attempt that comes back was the only one. -/
theorem Reached.only (h : Reached w) {i : Nat} (hi : w.tasks[i]? = some call) :
    w.tasks = [call] ∧ w.tasks.eraseIdx i = [] ∧ w.app.connecting = true := by
  obtain ⟨ms, hruns⟩ := h
  obtain ⟨hle, hiff⟩ := (SingleFlight.of_runs hruns).connecting_iff
  match htasks : w.tasks, i, hi with
  | [_], 0, rfl => exact ⟨rfl, rfl, hiff.2 (by simp [htasks])⟩
  | _ :: _ :: _, _, _ => simp [htasks] at hle

theorem Reached.step (h : Reached w) (ev : Event) : Reached (w.step ev) := by
  cases ev with
  | hostTyped s => exact h.deliver nofun
  | userTyped s => exact h.deliver nofun
  | passwordTyped s => exact h.deliver nofun
  | pressed =>
    unfold Window.step App.onPress
    cases w.app.connecting with
    | true => exact h
    | false => exact h.deliver nofun
  | returned i net =>
    simp only [Window.step]
    cases hi : w.tasks[i]? with
    | none => exact h
    | some call =>
      obtain ⟨ms, hruns⟩ := h
      obtain ⟨htasks, hrest, -⟩ := Reached.only ⟨ms, hruns⟩ hi
      rw [htasks] at hruns
      simp only [hrest]
      exact ⟨_, .step hruns (.only ⟨_, rfl⟩)⟩

theorem Reached.started_step (h : Reached w) (ev : Event) :
    (w.step ev).started = w.started ++ w.begins ev := by
  cases ev with
  | hostTyped s => simp [Window.step, Window.deliver, Window.started, Window.begins, App.update]
  | userTyped s => simp [Window.step, Window.deliver, Window.started, Window.begins, App.update]
  | passwordTyped s => simp [Window.step, Window.deliver, Window.started, Window.begins, App.update]
  | pressed =>
    unfold Window.step Window.begins App.onPress
    cases hc : w.app.connecting with
    | true => simp
    | false => simp [Window.deliver, Window.started, App.update, App.attempt, hc]
  | returned i net =>
    simp only [Window.step]
    cases hi : w.tasks[i]? with
    | none => simp [Window.begins]
    | some call =>
      obtain ⟨htasks, hrest, -⟩ := h.only hi
      show (w.finished ++ [(call, net)]).map Prod.fst ++ (w.tasks.eraseIdx i ++ (w.app.update (.connected _)).2) =
        w.finished.map Prod.fst ++ w.tasks ++ []
      rw [hrest, App.update_connected_tasks, htasks]
      simp

theorem Window.returned_password (w : Window) (i : Nat) (net : Net) :
    (w.step (.returned i net)).app.password = w.app.password := by
  simp only [Window.step]
  cases w.tasks[i]? with
  | none => rfl
  | some call => exact (w.app.update_connected (connectAndList net call).result).2

/-- The password of the attempts so far, and the one in the field, have been typed as often. -/
def PaidFor (p : String) (evs : List Event) (w : Window) : Prop :=
  w.started.countP (fun call => call.password = p) + (if w.app.password = p then 1 else 0) ≤ evs.countP (Event.types p)

theorem PaidFor.step {p : String} (hp : p ≠ "") (hreached : Reached w) (h : PaidFor p evs w) (ev : Event) :
    PaidFor p (evs ++ [ev]) (w.step ev) := by
  unfold PaidFor at h ⊢
  rw [hreached.started_step, List.countP_append, List.countP_append, List.countP_singleton]
  cases ev with
  | hostTyped s => exact h
  | userTyped s => exact h
  | passwordTyped s =>
    have hle := Nat.le_trans (Nat.le_add_right _ _) h
    by_cases hs : s = p
    · simpa [Window.step, Window.deliver, App.update, Window.begins, Event.types, hs] using hle
    · simpa [Window.step, Window.deliver, App.update, Window.begins, Event.types, hs] using hle
  | pressed =>
    unfold Window.step Window.begins App.onPress
    cases hc : w.app.connecting with
    | true => simpa [Event.types] using h
    | false =>
      -- the password goes from the field to the attempt
      simpa [Window.deliver, App.update, App.attempt, Event.types, hc, hp.symm, List.countP_cons] using h
  | returned i net =>
    rw [Window.returned_password]
    exact h

/-- What is shown is what came of the last attempt, or that one is under way. -/
structure Shows (w : Window) : Prop where
  folders : w.app.folders = foldersOf w.finished
  status : w.app.status = if w.app.connecting then "Connecting…" else statusOf w.finished

theorem Shows.step (h : Shows w) (ev : Event) : Shows (w.step ev) := by
  cases ev with
  | hostTyped s => exact ⟨h.folders, h.status⟩
  | userTyped s => exact ⟨h.folders, h.status⟩
  | passwordTyped s => exact ⟨h.folders, h.status⟩
  | pressed =>
    unfold Window.step App.onPress
    cases hc : w.app.connecting with
    | true => exact h
    | false =>
      simp only [Window.deliver, App.update, hc]
      exact ⟨h.folders, rfl⟩
  | returned i net =>
    simp only [Window.step]
    cases hi : w.tasks[i]? with
    | none => exact h
    | some call =>
      have hlast : (w.finished ++ [(call, net)]).getLast? = some (call, net) := List.getLast?_concat
      simp only [Window.deliver]
      constructor
      · simp only [foldersOf, hlast]
        cases (connectAndList net call).result <;> rfl
      · simp only [statusOf, hlast, (w.app.update_connected _).1]
        cases (connectAndList net call).result <;> rfl

/-! ## Runs -/

theorem Reached.run : ∀ (evs : List Event) {w : Window}, Reached w → Reached (w.run evs)
  | [], _, h => h
  | ev :: evs, _, h => Reached.run evs (h.step ev)

theorem Reached.started_run : ∀ (evs : List Event) {w : Window}, Reached w →
    (w.run evs).started = w.started ++ begun w evs
  | [], w, _ => (List.append_nil _).symm
  | ev :: evs, w, h => by
    have ih := Reached.started_run evs (h.step ev)
    rw [h.started_step, List.append_assoc] at ih
    exact ih

theorem PaidFor.run {p : String} (hp : p ≠ "") : ∀ (evs : List Event) {pre : List Event} {w : Window}, Reached w →
    PaidFor p pre w → PaidFor p (pre ++ evs) (w.run evs)
  | [], pre, w, _, h => by rwa [List.append_nil]
  | ev :: evs, pre, w, hreached, h => by
    have ih := PaidFor.run hp evs (hreached.step ev) (h.step hp hreached ev)
    rwa [List.append_assoc] at ih

theorem Shows.run : ∀ (evs : List Event) {w : Window}, Shows w → Shows (w.run evs)
  | [], _, h => h
  | ev :: evs, _, h => Shows.run evs (h.step ev)

/-- The passwords sent are those of the attempts that have come back. -/
theorem Window.countP_acts_le (p : String) (w : Window) :
    w.acts.countP (sends p) ≤ w.started.countP fun call => call.password = p := by
  obtain ⟨app, tasks, finished⟩ := w
  unfold Window.acts Window.started
  rw [List.countP_append]
  refine Nat.le_trans ?_ (Nat.le_add_right _ _)
  show (finished.flatMap fun x => (connectAndList x.2 x.1).trace).countP (sends p) ≤
    (finished.map Prod.fst).countP fun call => call.password = p
  induction finished with
  | nil => exact Nat.le_refl _
  | cons x finished ih =>
    have hone := countP_sends_le p x.2 x.1
    simp only [List.flatMap_cons, List.countP_append, List.map_cons, List.countP_cons, decide_eq_true_eq]
    omega

/-- In every run of the window, whatever the network has for each attempt: an attempt is made for each
press while none is under way, with the fields as they are then; it takes its steps in order and each
when those before it have succeeded, LOGIN inside TLS with the host of the attempt; a password is sent
no more often than it is typed; the status is that of the last attempt; and folders are shown only
after an attempt that listed them, under the account that it was made for, and no later one has come
back. -/
theorem attempts_of_run (evs : List Event) :
    let w := Window.run {} evs
    (w.tasks.length ≤ 1 ∧ w.finished.map Prod.fst ++ w.tasks = begun {} evs) ∧
    (∀ x ∈ w.finished, Stepwise x.2 x.1 (connectAndList x.2 x.1).trace) ∧
    (∀ p, p ≠ "" → w.acts.countP (sends p) ≤ evs.countP (Event.types p)) ∧
    w.app.status = (if w.app.connecting then "Connecting…" else statusOf w.finished) ∧
    (∀ f ∈ w.app.folders, ∃ call net session, w.finished.getLast? = some (call, net) ∧
      Secured net call.cfg.imapHost ∧ net.login call.cfg.imapHost call.cfg.username call.password = .ok session ∧
      listFolders session.listing = .ok w.app.folders) := by
  have hstart : Reached {} := ⟨[], .start⟩
  have hreached : Reached (Window.run {} evs) := hstart.run evs
  have hshows : Shows (Window.run {} evs) := Shows.run evs ⟨rfl, rfl⟩
  refine ⟨⟨?_, ?_⟩, fun x _ => connectAndList_stepwise x.2 x.1, fun p hp => ?_, hshows.status, fun f hf => ?_⟩
  · obtain ⟨ms, hruns⟩ := hreached
    exact (SingleFlight.of_runs hruns).connecting_iff.1
  · exact hstart.started_run evs
  · have hpaid : PaidFor p ([] ++ evs) (Window.run {} evs) :=
      PaidFor.run hp evs hstart (by simp [PaidFor, Window.started, hp.symm])
    exact Nat.le_trans (Window.countP_acts_le p _) (Nat.le_trans (Nat.le_add_right _ _) hpaid)
  · rw [hshows.folders] at hf ⊢
    unfold foldersOf at hf ⊢
    cases hlast : (Window.run {} evs).finished.getLast? with
    | none =>
      rw [hlast] at hf
      cases hf
    | some x =>
      obtain ⟨call, net⟩ := x
      simp only [hlast] at hf ⊢
      cases hresult : (connectAndList net call).result with
      | error e =>
        rw [hresult] at hf
        cases hf
      | ok folders =>
        obtain ⟨hsecured, session, hlogin, hlist⟩ := connectAndList_ok hresult
        exact ⟨call, net, session, rfl, hsecured, hlogin, hlist⟩

end Gui

end Thundercrab
