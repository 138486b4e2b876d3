import PiKachulm.Wm.Stack
import PiKachulm.Core.Machine

/-!
# The focus

One window at most has the focus, and the windows are told in turn that they have it and that they
have lost it. `focus_window` breaks this when it takes the focus from a window that leaves it to a
third one.
-/

namespace PiKachulm.Wm

open Core

/-- The messages of a window about the focus. -/
def focusMessages (posted : List Message) : List Message :=
  posted.filter fun m => m = .focusIn ∨ m = .focusOut

/-- `n` messages in turn, the first one `FOCUS_IN`. -/
def inTurn (n : ℕ) : List Message :=
  (List.range n).map fun i => if i % 2 = 0 then .focusIn else .focusOut

namespace WindowManager

/-- The windows agree on the one that has the focus. -/
structure FocusExclusive (s : WindowManager) : Prop where
  atMostOne : ∀ w ∈ s.windows, ∀ v ∈ s.windows,
    (s.window w).focus = true → (s.window v).focus = true → w = v
  flag : ∀ w ∈ s.windows, (s.window w).focus = true ↔ s.focused = some w
  member : ∀ w, s.focused = some w → w ∈ s.windows
  messages : ∀ w ∈ s.windows, ∃ n,
    focusMessages (s.window w).posted = inTurn n ∧ (n % 2 = 1 ↔ s.focused = some w)

/-- No other window than the one with the focus is visible. -/
def Alone (s : WindowManager) : Prop :=
  ∀ a, s.focused = some a → ∀ v ∈ s.windows, (s.window v).visible = true → v = a

/-- The operation does not take the focus from a window that leaves it to another one. -/
def CanFocus (s : WindowManager) : Op → Prop
  | .create _ _ => s.Alone
  | .focus window => s.focused = some window ∨ s.Alone
  | .click x y => ∀ w, (s.windows.find? fun w => (s.window w).geometry.contains x y) = some w →
      s.focused = some w ∨ s.Alone
  | .destroy window =>
      ∀ a, (if s.focused = some window then s.newFocusWindow window else s.focused) = some a →
        ∀ v ∈ s.windows, (s.window v).visible = true → v = window ∨ v = a
  | _ => True

/-! ### The operations -/

variable {s : WindowManager} {window v : ℕ} {message : Message}

/-- The window with the focus loses it. -/
def dropFocus (s : WindowManager) (window : ℕ) : WindowManager :=
  { (s.setFocus window false).postMessage window .focusOut with focused := none }

lemma raise_window : (s.raise window).window = Function.update s.window window
    { s.window window with
      focus := true, posted := (s.window window).posted ++ [.focusIn] } := by
  simp [raise, update, setFocus, postMessage, modify]

@[simp] lemma raise_windows : (s.raise window).windows = window :: s.windows.erase window := rfl

@[simp] lemma raise_focused : (s.raise window).focused = some window := rfl

lemma dropFocus_window : (s.dropFocus window).window = Function.update s.window window
    { s.window window with
      focus := false, posted := (s.window window).posted ++ [.focusOut] } := by
  simp [dropFocus, setFocus, postMessage, modify]

@[simp] lemma dropFocus_windows : (s.dropFocus window).windows = s.windows := rfl

@[simp] lemma dropFocus_focused : (s.dropFocus window).focused = none := rfl

lemma unfocusWindow_of_focused (h : s.focused = some window) : s.unfocusWindow window =
    match s.newFocusWindow window with
    | none => s.dropFocus window
    | some w => (s.dropFocus window).raise w := by
  have hvisible : ∀ w, (((s.setFocus window false).postMessage window .focusOut).window w).visible =
      (s.window w).visible := by
    intro w
    by_cases hw : w = window
    · simp [setFocus, postMessage, modify, hw]
    · simp [setFocus, postMessage, modify, hw]
  have hsame : ((s.setFocus window false).postMessage window .focusOut).newFocusWindow window =
      s.newFocusWindow window := by
    simp only [newFocusWindow, hvisible]
    rfl
  rw [unfocusWindow, if_neg (not_not_intro h)]
  simp only [hsame]
  rfl

lemma unfocusWindow_of_ne (h : s.focused ≠ some window) : s.unfocusWindow window = s := by
  rw [unfocusWindow, if_pos h]

lemma newFocusWindow_eq_none : s.newFocusWindow window = none ↔
    ∀ v ∈ s.windows, (s.window v).visible = true → v = window := by
  simp only [newFocusWindow, List.getLast?_eq_none_iff, List.filter_eq_nil_iff, Bool.and_eq_true,
    decide_eq_true_eq, not_and', ne_eq, not_not]

lemma mem_of_newFocusWindow (h : s.newFocusWindow window = some v) :
    v ∈ s.windows ∧ v ≠ window ∧ (s.window v).visible = true := by
  have hmem := List.mem_of_getLast? h
  simpa using hmem

/-! ### One window -/

lemma inTurn_succ (n : ℕ) :
    inTurn (n + 1) = inTurn n ++ [if n % 2 = 0 then .focusIn else .focusOut] := by
  simp [inTurn, List.range_succ]

lemma length_inTurn (n : ℕ) : (inTurn n).length = n := by simp [inTurn]

@[simp] lemma focusMessages_append (posted posted' : List Message) :
    focusMessages (posted ++ posted') = focusMessages posted ++ focusMessages posted' :=
  List.filter_append ..

/-- The window knows whether it has the focus. -/
structure Settled (focused : Option ℕ) (w : ℕ) (ws : WindowState) : Prop where
  flag : ws.focus = true ↔ focused = some w
  messages : ∃ n, focusMessages ws.posted = inTurn n ∧ (n % 2 = 1 ↔ focused = some w)

variable {ws : WindowState} {focused focused' : Option ℕ}

lemma settled_new (hf : focused ≠ some v) (geometry : Rect) (visible : Bool) :
    Settled focused v ⟨geometry, visible, false, []⟩ :=
  ⟨iff_of_false Bool.false_ne_true hf, 0, rfl, iff_of_false Nat.zero_ne_one hf⟩

lemma Settled.congr (h : Settled focused v ws) (hf : focused = some v ↔ focused' = some v) :
    Settled focused' v ws := by
  obtain ⟨n, hposted, hn⟩ := h.messages
  exact ⟨h.flag.trans hf, n, hposted, hn.trans hf⟩

/-- Nothing but the flag and the messages about the focus matters. -/
lemma Settled.of_eq {ws' : WindowState} (h : Settled focused v ws) (hfocus : ws'.focus = ws.focus)
    (hposted : focusMessages ws'.posted = focusMessages ws.posted) : Settled focused v ws' := by
  constructor
  · rw [hfocus]
    exact h.flag
  · rw [hposted]
    exact h.messages

/-- The window gets the focus and is told. -/
lemma Settled.gain (h : Settled none v ws) : Settled (some v) v
    { ws with focus := true, posted := ws.posted ++ [.focusIn] } := by
  obtain ⟨n, hposted, hn⟩ := h.messages
  have heven : n % 2 = 0 := by simpa using hn
  refine ⟨by simp, n + 1, ?_, by simp; omega⟩
  rw [focusMessages_append, hposted, inTurn_succ, if_pos heven]
  rfl

/-- The window loses the focus and is told. -/
lemma Settled.lose (h : Settled (some v) v ws) : Settled none v
    { ws with focus := false, posted := ws.posted ++ [.focusOut] } := by
  obtain ⟨n, hposted, hn⟩ := h.messages
  have hodd : n % 2 = 1 := hn.mpr rfl
  refine ⟨by simp, n + 1, ?_, by simp; omega⟩
  rw [focusMessages_append, hposted, inTurn_succ, if_neg (by omega)]
  rfl

/-- A window that has the focus cannot be told again that it gets it. -/
lemma Settled.not_gain (h : Settled (some v) v ws) : ¬Settled focused v
    { ws with focus := true, posted := ws.posted ++ [.focusIn] } := by
  intro h'
  obtain ⟨n, hposted, hn⟩ := h.messages
  obtain ⟨m, hposted', -⟩ := h'.messages
  have hodd : n % 2 = 1 := hn.mpr rfl
  rw [focusMessages_append, hposted] at hposted'
  have hlength : n + 1 = m := by simpa [length_inTurn, focusMessages] using congrArg List.length hposted'
  rw [← hlength, inTurn_succ, if_neg (by omega)] at hposted'
  simp [focusMessages] at hposted'

/-! ### All windows -/

/-- The window with the focus is the top one, and all windows know whether they have it. -/
structure Focused (s : WindowManager) : Prop where
  nodup : s.windows.Nodup
  front : ∀ w, s.focused = some w → s.windows.head? = some w
  settled : ∀ w ∈ s.windows, Settled s.focused w (s.window w)

lemma Focused.mem (h : s.Focused) (hf : s.focused = some v) : v ∈ s.windows :=
  List.mem_of_mem_head? (h.front v hf)

lemma Focused.focusExclusive (h : s.Focused) : s.FocusExclusive where
  atMostOne := by
    intro w hw v hv hfw hfv
    have heq := ((h.settled w hw).flag.mp hfw).symm.trans ((h.settled v hv).flag.mp hfv)
    exact Option.some_injective _ heq
  flag := fun w hw => (h.settled w hw).flag
  member := fun w hf => h.mem hf
  messages := fun w hw => (h.settled w hw).messages

lemma FocusExclusive.settled (h : s.FocusExclusive) (hv : v ∈ s.windows) :
    Settled s.focused v (s.window v) :=
  ⟨h.flag v hv, h.messages v hv⟩

/-- Another state with the same windows, of which each has the same flag and messages. -/
lemma Focused.of_perm {s' : WindowManager} (h : s.Focused) (hwindows : s'.windows.Perm s.windows)
    (hhead : s'.windows.head? = s.windows.head?) (hfocused : s'.focused = s.focused)
    (hfocus : ∀ w ∈ s.windows, (s'.window w).focus = (s.window w).focus ∧
      focusMessages (s'.window w).posted = focusMessages (s.window w).posted) : s'.Focused where
  nodup := hwindows.nodup_iff.mpr h.nodup
  front := by
    rw [hhead, hfocused]
    exact h.front
  settled := by
    rw [hfocused]
    intro w hw
    have hw' := hwindows.mem_iff.mp hw
    exact (h.settled w hw').of_eq (hfocus w hw').1 (hfocus w hw').2

lemma Focused.of_eq {s' : WindowManager} (h : s.Focused) (hwindows : s'.windows = s.windows)
    (hfocused : s'.focused = s.focused) (hfocus : ∀ w ∈ s.windows,
      (s'.window w).focus = (s.window w).focus ∧
        focusMessages (s'.window w).posted = focusMessages (s.window w).posted) : s'.Focused :=
  h.of_perm (by rw [hwindows]) (by rw [hwindows]) hfocused hfocus

lemma Focused.postMessage (h : s.Focused) (hm : focusMessages [message] = []) :
    (s.postMessage window message).Focused := by
  refine @of_eq _ (s.postMessage window message) h rfl rfl fun w _ => ?_
  by_cases hw : w = window
  · subst hw
    simp [WindowManager.postMessage, modify, hm]
  · simp [WindowManager.postMessage, modify, hw]

lemma Focused.update (h : s.Focused) (rect : Rect) : (s.update rect).Focused :=
  h.of_eq rfl rfl fun _ _ => ⟨rfl, rfl⟩

lemma Focused.dropFocus (h : s.Focused) (hf : s.focused = some window) :
    (s.dropFocus window).Focused where
  nodup := h.nodup
  front := fun w hw => absurd hw (by simp)
  settled := by
    intro w hw
    rw [dropFocus_window]
    by_cases heq : w = window
    · subst heq
      have hsettled := h.settled w hw
      rw [hf] at hsettled
      simpa using hsettled.lose
    · rw [Function.update_of_ne heq]
      apply (h.settled w hw).congr
      simp [hf, Ne.symm heq]

lemma Focused.raise (h : s.Focused) (hf : s.focused = none) (hw : window ∈ s.windows) :
    (s.raise window).Focused where
  nodup := by
    rw [raise_windows, List.nodup_cons]
    exact ⟨h.nodup.not_mem_erase, h.nodup.erase _⟩
  front := by simp
  settled := by
    intro w hmem
    have hmem' : w ∈ s.windows := by
      rcases List.mem_cons.mp hmem with rfl | hmem
      · exact hw
      · exact List.mem_of_mem_erase hmem
    have hsettled := h.settled w hmem'
    rw [raise_window, raise_focused]
    by_cases heq : w = window
    · subst heq
      rw [hf] at hsettled
      simpa using hsettled.gain
    · rw [Function.update_of_ne heq]
      apply hsettled.congr
      simp [hf, Ne.symm heq]

lemma Focused.unfocusWindow (h : s.Focused) : (s.unfocusWindow window).Focused := by
  by_cases hf : s.focused = some window
  · rw [unfocusWindow_of_focused hf]
    cases hnew : s.newFocusWindow window with
    | none => exact h.dropFocus hf
    | some v => exact (h.dropFocus hf).raise rfl (mem_of_newFocusWindow hnew).1
  · rw [unfocusWindow_of_ne hf]
    exact h

/-- The window that loses the focus leaves it to none. -/
lemma unfocusWindow_of_alone (hf : s.focused = some window) (ha : s.Alone) :
    s.unfocusWindow window = s.dropFocus window := by
  rw [unfocusWindow_of_focused hf, newFocusWindow_eq_none.mpr (ha window hf)]

lemma Focused.focusWindow (h : s.Focused) (hw : window ∈ s.windows)
    (hcan : s.focused = some window ∨ s.Alone) : (s.focusWindow window).Focused := by
  by_cases hf : s.focused = some window
  · rw [WindowManager.focusWindow, if_pos hf]
    exact h
  · rw [WindowManager.focusWindow, if_neg hf]
    cases hold : s.focused with
    | none => exact h.raise hold hw
    | some old =>
      dsimp only
      rw [unfocusWindow_of_alone hold (hcan.resolve_left hf)]
      exact (h.dropFocus hold).raise rfl hw

/-- A window that gets the focus while a third one has got it from the old one breaks the rule:
the third one keeps its flag, or is told twice when it is the window itself. -/
lemma Focused.alone_of_focusWindow (h : s.Focused) (hw : window ∈ s.windows)
    (hex : (s.focusWindow window).FocusExclusive) : s.focused = some window ∨ s.Alone := by
  by_cases hf : s.focused = some window
  · exact .inl hf
  refine .inr fun old hold => ?_
  rw [← newFocusWindow_eq_none]
  by_contra hnew
  obtain ⟨third, hnew⟩ := Option.ne_none_iff_exists'.mp hnew
  have hthird := (mem_of_newFocusWindow hnew).1
  have hbetween := (h.dropFocus hold).raise rfl hthird
  rw [WindowManager.focusWindow, if_neg hf, hold] at hex
  dsimp only at hex
  rw [unfocusWindow_of_focused hold, hnew] at hex
  dsimp only at hex
  have hsettled := hbetween.settled third List.mem_cons_self
  have hmem : third ∈ (((s.dropFocus old).raise third).raise window).windows := by
    by_cases heq : third = window
    · exact List.mem_cons.mpr (.inl heq)
    · exact List.mem_cons_of_mem _ ((List.mem_erase_of_ne heq).mpr List.mem_cons_self)
  have hafter := hex.settled hmem
  by_cases heq : third = window
  · subst heq
    rw [raise_window, Function.update_self] at hafter
    exact hsettled.not_gain hafter
  · rw [raise_window, Function.update_of_ne heq, raise_focused] at hafter
    have hflag := hafter.flag.mp (hsettled.flag.mpr rfl)
    exact heq (Option.some_injective _ hflag).symm

/-! ### The other operations -/

/-- The list and the memory when a window has been created. -/
lemma Focused.created (h : s.Focused) (hw : window ∉ s.windows) (geometry : Rect) :
    Focused { s.modify window (fun _ => ⟨geometry, false, false, []⟩) with
      windows := s.windows ++ [window] } where
  nodup := by
    rw [List.nodup_append]
    refine ⟨h.nodup, by simp, ?_⟩
    rintro a ha b hb rfl
    exact hw (List.mem_singleton.mp hb ▸ ha)
  front := by
    intro w hf
    rw [List.head?_append, h.front w hf]
    rfl
  settled := by
    have hne : s.focused ≠ some window := fun hf => hw (h.mem hf)
    intro w hmem
    by_cases heq : w = window
    · subst heq
      simpa [modify] using settled_new hne geometry false
    · have hmem' : w ∈ s.windows := by simpa [heq] using hmem
      simpa [modify, heq] using h.settled w hmem'

/-- Without the focus a window can be taken from the list. -/
lemma Focused.erase (h : s.Focused) (hf : s.focused ≠ some window) :
    Focused { s with windows := s.windows.erase window } where
  nodup := h.nodup.erase _
  front := by
    intro w hw
    have hfront := h.front w hw
    have hne : w ≠ window := fun heq => hf (heq ▸ hw)
    cases hl : s.windows with
    | nil => simp [hl] at hfront
    | cons front rest =>
      rw [hl, List.head?_cons, Option.some_inj] at hfront
      simp [hfront, hne]
  settled := fun w hw => h.settled w (List.mem_of_mem_erase hw)

/-- The top window is the last one when there is no other. -/
lemma Focused.alone_of_last (h : s.Focused) (hf : s.focused = s.windows.getLast?) : s.Alone := by
  intro a ha v hv _
  have hfront := h.front a ha
  have hlast := hf.symm.trans ha
  cases hl : s.windows with
  | nil => simp [hl] at hfront
  | cons front rest =>
    rw [hl, List.head?_cons, Option.some_inj] at hfront
    have hnodup := h.nodup
    rw [hl] at hv hlast hnodup
    cases rest with
    | nil =>
      rw [List.mem_singleton] at hv
      exact hv.trans hfront
    | cons second rest =>
      rw [List.getLast?_cons_cons] at hlast
      have hmem := List.mem_of_getLast? hlast
      exact absurd (hfront ▸ hmem) (List.nodup_cons.mp hnodup).1

lemma Focused.setWindowVisibility (h : s.Focused) (hw : window ∈ s.windows) (visible : Bool) :
    (s.setWindowVisibility window visible).Focused := by
  have hmodify : (s.modify window fun w => { w with visible := visible }).Focused := by
    refine h.of_eq rfl rfl fun w _ => ?_
    by_cases heq : w = window
    · subst heq
      simp [modify]
    · simp [modify, heq]
  rw [WindowManager.setWindowVisibility]
  dsimp only
  split_ifs with hsame hshow hnone hfocus
  · exact h
  · refine Focused.postMessage (hmodify.focusWindow hw (.inr fun a ha => ?_)) (by rfl)
    exact absurd (ha.symm.trans hnone) (by simp)
  · exact (hmodify.postMessage (by rfl)).update _
  · exact hmodify.unfocusWindow.postMessage (by rfl)
  · exact hmodify.postMessage (by rfl)

lemma Focused.postMessage_ite (h : s.Focused) (p : Prop) [Decidable p]
    (hm : focusMessages [message] = []) :
    (if p then s.postMessage window message else s).Focused := by
  split_ifs
  · exact h.postMessage hm
  · exact h

lemma Focused.update_ite (h : s.Focused) (p : Prop) [Decidable p] (rect : Rect) :
    (if p then s.update rect else s).Focused := by
  split_ifs
  · exact h.update rect
  · exact h

lemma Focused.setWindowGeometry (h : s.Focused) (rect : Rect) :
    (s.setWindowGeometry window rect).Focused := by
  have hmodify : (s.modify window fun w => { w with geometry := s.constrain rect }).Focused := by
    refine h.of_eq rfl rfl fun w _ => ?_
    by_cases heq : w = window
    · subst heq
      simp [modify]
    · simp [modify, heq]
  apply Focused.update_ite
  exact (hmodify.postMessage_ite _ (by rfl)).postMessage_ite _ (by rfl)

lemma Focused.setWindowGeometryAt (h : s.Focused) (x y width height : Int32) :
    (s.setWindowGeometryAt window x y width height).Focused := by
  have hlast : ∀ lastX lastY,
      Focused { s with lastWindowX := lastX, lastWindowY := lastY } :=
    fun _ _ => h.of_eq rfl rfl fun _ _ => ⟨rfl, rfl⟩
  rw [WindowManager.setWindowGeometryAt]
  apply Focused.setWindowGeometry
  split_ifs
  · exact hlast _ _
  · exact hlast _ _
  · exact hlast _ _
  · exact h

/-- With the focus on the top window, `switch_focus` gives it to the second one and moves the old one
to the back. -/
lemma switchFocus_of_cons {old new : ℕ} {rest : List ℕ} (hw : s.windows = old :: new :: rest)
    (hf : s.focused = some old) (hne : old ≠ new) : s.switchFocus =
      WindowManager.update { (s.dropFocus old).raise new with
        windows := new :: (rest ++ [old]), updates := s.updates } (s.window new).geometry := by
  have hgeometry : (((s.dropFocus old).raise new).window new).geometry = (s.window new).geometry := by
    rw [raise_window, Function.update_self, dropFocus_window, Function.update_of_ne hne.symm]
  have hlist : (new :: s.windows.erase new).erase old ++ [old] = new :: (rest ++ [old]) := by
    simp [hw, hne, hne.symm]
  rw [← hlist, ← hgeometry]
  cases s
  subst hw hf
  simp only [switchFocus, ne_eq, not_true_eq_false, decide_false, Bool.false_eq_true,
    not_false_eq_true, List.dropWhile_cons_of_neg, List.tail_cons, List.head?_cons, Option.getD_some,
    if_neg hne]
  rfl

lemma Focused.switchFocus (h : s.Focused) : s.switchFocus.Focused := by
  cases hw : s.windows with
  | nil =>
    rw [WindowManager.switchFocus, hw]
    exact h
  | cons front rest =>
    cases hf : s.focused with
    | none =>
      rw [WindowManager.switchFocus, hw, hf]
      refine h.focusWindow (hw ▸ List.mem_cons_self) (.inr fun a ha => ?_)
      exact absurd (ha.symm.trans hf) (by simp)
    | some old =>
      have hfront := h.front old hf
      rw [hw, List.head?_cons, Option.some_inj] at hfront
      subst hfront
      cases rest with
      | nil =>
        rw [WindowManager.switchFocus, hw, hf]
        simp [h]
      | cons new rest =>
        have hne : front ≠ new := by
          have hnodup := h.nodup
          rw [hw, List.nodup_cons] at hnodup
          exact fun heq => hnodup.1 (heq ▸ List.mem_cons_self)
        have hraise : ((s.dropFocus front).raise new).Focused :=
          (h.dropFocus hf).raise rfl (by simp [hw])
        rw [switchFocus_of_cons hw hf hne]
        apply Focused.update
        refine hraise.of_perm ?_ rfl rfl fun _ _ => ⟨rfl, rfl⟩
        have hlist : ((s.dropFocus front).raise new).windows = new :: front :: rest := by
          simp [hw, hne]
        rw [hlist]
        exact (List.perm_append_singleton front rest).cons new

/-! ### Destroying a window -/

/-- `destroy_window` before another window is focused. -/
def remove (s : WindowManager) (window : ℕ) : WindowManager :=
  let s := { s.unfocusWindow window with windows := (s.unfocusWindow window).windows.erase window }
  if (s.window window).visible then s.update (s.window window).geometry else s

lemma destroyWindow_eq : s.destroyWindow window =
    match (s.remove window).windows.getLast? with
    | none => s.remove window
    | some back => (s.remove window).focusWindow back := by
  have hif : (if s.focused = some window then s.unfocusWindow window else s) =
      s.unfocusWindow window := by
    split_ifs with hf
    · rfl
    · rw [unfocusWindow_of_ne hf]
  rw [destroyWindow, hif]
  rfl

/-- The window that has the focus when `window` no longer has it. -/
lemma unfocusWindow_focused : (s.unfocusWindow window).focused =
    if s.focused = some window then s.newFocusWindow window else s.focused := by
  split_ifs with hf
  · rw [unfocusWindow_of_focused hf]
    cases s.newFocusWindow window <;> rfl
  · rw [unfocusWindow_of_ne hf]

/-- The focus changes neither the windows that there are nor which of them are visible. -/
lemma mem_unfocusWindow : v ∈ (s.unfocusWindow window).windows ↔ v ∈ s.windows := by
  by_cases hf : s.focused = some window
  · rw [unfocusWindow_of_focused hf]
    cases hnew : s.newFocusWindow window with
    | none => rfl
    | some w =>
      dsimp only
      rw [raise_windows, dropFocus_windows, List.mem_cons]
      by_cases hv : v = w
      · exact iff_of_true (.inl hv) (hv ▸ (mem_of_newFocusWindow hnew).1)
      · rw [List.mem_erase_of_ne hv]
        exact or_iff_right hv
  · rw [unfocusWindow_of_ne hf]

lemma visible_dropFocus : ((s.dropFocus window).window v).visible = (s.window v).visible := by
  rw [dropFocus_window]
  by_cases hv : v = window
  · simp [hv]
  · rw [Function.update_of_ne hv]

lemma visible_raise : ((s.raise window).window v).visible = (s.window v).visible := by
  rw [raise_window]
  by_cases hv : v = window
  · simp [hv]
  · rw [Function.update_of_ne hv]

lemma visible_unfocusWindow :
    ((s.unfocusWindow window).window v).visible = (s.window v).visible := by
  by_cases hf : s.focused = some window
  · rw [unfocusWindow_of_focused hf]
    cases s.newFocusWindow window with
    | none => exact visible_dropFocus
    | some w => exact visible_raise.trans visible_dropFocus
  · rw [unfocusWindow_of_ne hf]

lemma unfocusWindow_ne : (s.unfocusWindow window).focused ≠ some window := by
  rw [unfocusWindow_focused]
  split_ifs with hf
  · exact fun hnew => (mem_of_newFocusWindow hnew).2.1 rfl
  · exact hf

lemma Focused.remove (h : s.Focused) : (s.remove window).Focused :=
  (h.unfocusWindow.erase unfocusWindow_ne).update_ite _ _

/-- Among the windows that are left, the one with the focus is alone. -/
lemma alone_remove_iff (h : s.Focused) : (s.remove window).Alone ↔
    s.CanFocus (.destroy window) := by
  have hremove : (s.remove window).Alone ↔ ∀ a, (s.unfocusWindow window).focused = some a →
      ∀ v ∈ (s.unfocusWindow window).windows.erase window,
        ((s.unfocusWindow window).window v).visible = true → v = a := by
    rw [WindowManager.remove]
    dsimp only
    split_ifs <;> rfl
  have hnodup : (s.unfocusWindow window).windows.Nodup := h.unfocusWindow.nodup
  rw [hremove, unfocusWindow_focused]
  refine forall₂_congr fun a _ => ?_
  constructor
  · intro hall v hv hvisible
    by_cases hvw : v = window
    · exact .inl hvw
    · refine .inr (hall v ?_ (visible_unfocusWindow.trans hvisible))
      exact (List.mem_erase_of_ne hvw).mpr (mem_unfocusWindow.mpr hv)
  · intro hall v hv hvisible
    obtain ⟨hvw, hv⟩ := hnodup.mem_erase_iff.mp hv
    exact (hall v (mem_unfocusWindow.mp hv) (visible_unfocusWindow.symm.trans hvisible)).resolve_left hvw

/-! ### Runs -/

/-- An operation that meets the condition keeps the rule. -/
lemma Focused.apply (h : s.Focused) {op : Op} (hvalid : s.Valid op) (hcan : s.CanFocus op) :
    (s.apply op).Focused := by
  cases op with
  | create window geometry =>
    refine (h.created hvalid geometry).focusWindow (by simp) (.inr ?_)
    intro a ha v hv hvisible
    by_cases hvw : v = window
    · simp [modify, hvw] at hvisible
    · have hv' : v ∈ s.windows := by simpa [hvw] using hv
      exact hcan a ha v hv' (by simpa [modify, hvw] using hvisible)
  | destroy window =>
    rw [WindowManager.apply, destroyWindow_eq]
    cases hlast : (s.remove window).windows.getLast? with
    | none => exact h.remove
    | some back =>
      exact h.remove.focusWindow (List.mem_of_getLast? hlast) (.inr ((alone_remove_iff h).mpr hcan))
  | setVisibility window visible => exact h.setWindowVisibility hvalid visible
  | setGeometry window rect => exact h.setWindowGeometry rect
  | setGeometryAt window x y width height =>
    rw [WindowManager.apply]
    exact h.setWindowGeometryAt x y width height
  | focus window => exact h.focusWindow hvalid hcan
  | click x y =>
    rw [WindowManager.apply, handleMouseClickEvent]
    split
    · exact h
    · next w hfind => exact h.focusWindow (List.mem_of_find?_eq_some hfind) (hcan w hfind)
  | switchFocus => exact h.switchFocus

/-- An operation after which the rule holds met the condition. -/
lemma Focused.canFocus (h : s.Focused) {op : Op} (hvalid : s.Valid op)
    (hex : (s.apply op).FocusExclusive) : s.CanFocus op := by
  cases op with
  | create window geometry =>
    have hcreated := h.created hvalid geometry
    have hne : s.focused ≠ some window := fun hf => hvalid (h.mem hf)
    have halone := (hcreated.alone_of_focusWindow (by simp) hex).resolve_left hne
    intro a ha v hv hvisible
    have hvw : v ≠ window := fun heq => hvalid (heq ▸ hv)
    exact halone a ha v (List.mem_append_left _ hv) (by simpa [modify, hvw] using hvisible)
  | destroy window =>
    rw [← alone_remove_iff h]
    rw [WindowManager.apply, destroyWindow_eq] at hex
    cases hlast : (s.remove window).windows.getLast? with
    | none =>
      intro a _ v hv _
      rw [List.getLast?_eq_none_iff.mp hlast] at hv
      exact absurd hv List.not_mem_nil
    | some back =>
      rw [hlast] at hex
      rcases h.remove.alone_of_focusWindow (List.mem_of_getLast? hlast) hex with hf | halone
      · exact h.remove.alone_of_last (hf.trans hlast.symm)
      · exact halone
  | focus window => exact h.alone_of_focusWindow hvalid hex
  | click x y =>
    intro w hfind
    rw [WindowManager.apply, handleMouseClickEvent, hfind] at hex
    exact h.alone_of_focusWindow (List.mem_of_find?_eq_some hfind) hex
  | _ => trivial

/-- The focus is exclusive throughout a run. -/
def AlwaysExclusive (s : WindowManager) (ops : List Op) : Prop :=
  AllStates step FocusExclusive s ops

/-- No operation of a run takes the focus from a window that leaves it to another one. -/
def AlwaysCanFocus (s : WindowManager) (ops : List Op) : Prop := AllSteps step CanFocus s ops

lemma focused_init (screenWidth screenHeight : Int32) :
    (init screenWidth screenHeight).Focused where
  nodup := List.nodup_nil
  front := fun _ hf => absurd hf (by simp [init])
  settled := fun _ hw => absurd hw List.not_mem_nil

/-- The focus is exclusive exactly as long as it never passes through a third window. -/
theorem alwaysExclusive_iff (screenWidth screenHeight : Int32) (ops : List Op) :
    AlwaysExclusive (init screenWidth screenHeight) ops ↔
      AlwaysCanFocus (init screenWidth screenHeight) ops := by
  have hvalid : ∀ {s s' : WindowManager} {op : Op}, s.step op = some s' →
      s.Valid op ∧ s' = s.apply op := by
    intro s s' op hrun
    rw [step] at hrun
    split_ifs at hrun with hop
    exact ⟨hop, (Option.some_inj.mp hrun).symm⟩
  apply allStates_iff_allSteps (I := Focused)
  · exact fun s hs => hs.focusExclusive
  · intro s op s' hs hrun hcan
    obtain ⟨hop, rfl⟩ := hvalid hrun
    exact hs.apply hop hcan
  · intro s op s' hs hrun hex
    obtain ⟨hop, rfl⟩ := hvalid hrun
    exact hs.canFocus hop hex
  · exact focused_init screenWidth screenHeight

/-- Two visible windows, and a third one that is created: the first one gets the focus from the
second one, and keeps it when it goes on to the third one. -/
theorem not_alwaysExclusive_thirdWindow : ¬AlwaysExclusive (init 100 100)
    [.create 1 .zero, .setVisibility 1 true, .create 2 .zero, .setVisibility 2 true,
      .create 3 .zero] := by
  intro hall
  have hlast := ((((hall.2 _ rfl).2 _ rfl).2 _ rfl).2 _ rfl).2 _ rfl
  have heq := FocusExclusive.atMostOne hlast 1 (by decide) 3 (by decide) (by decide) (by decide)
  exact absurd heq (by decide)

end WindowManager

end PiKachulm.Wm
