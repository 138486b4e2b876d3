import PiKachulm.Wm.Focus
import PiKachulm.Wm.Placement
import PiKachulm.Wm.RectAlgebra
import PiKachulm.Graphics.Painter
import Mathlib.Data.List.Find

/-!
# What the screen shows

A screen that only records who has painted each pixel last should always show the stack of the
windows. Each operation decides for itself which rectangle is drawn again, and two of them forget
what comes to light elsewhere: hiding a window, and moving the old window to the back in
`switch_focus`. Besides, the focus border is clipped one row and one column too late.
-/

namespace PiKachulm.Wm

open Core Graphics

/-- Who has painted each pixel last: a window, or the background. -/
abbrev Screen := Int32 × Int32 → Option ℕ

/-- The pixels of the focus border of a window. -/
def border (geometry : Rect) : List (Int32 × Int32) :=
  Painter.widePixels 3 geometry.x1 geometry.y1 geometry.width geometry.height

/-- The pixel is not clipped: `set_clipping` takes the corner `x2`, `y2` for a pixel that is
drawn. -/
def Rect.clipContains (r : Rect) (p : Int32 × Int32) : Bool :=
  r.x1 ≤ p.1 && p.1 ≤ r.x2 && r.y1 ≤ p.2 && p.2 ≤ r.y2

/-- The call draws the focus border over the pixel. -/
def Draw.borders (d : Draw) (focus : ℕ → Bool) (p : Int32 × Int32) : Bool :=
  match d.window with
  | none => false
  | some w => focus w.pointer && d.rect.clipContains p && (border w.geometry).contains p

/-- The call paints the pixel. -/
def Draw.paints (d : Draw) (focus : ℕ → Bool) (p : Int32 × Int32) : Bool :=
  d.rect.contains p.1 p.2 || d.borders focus p

def Update.paint (u : Update) (screen : Screen) : Screen :=
  (drawWindows u.windows u.rect).foldl
    (fun screen d p => if d.paints u.focus p then d.window.map Window.pointer else screen p) screen

namespace WindowManager

/-- The screen after all updates, which was `before` when the window manager started. -/
def screen (before : Screen) (s : WindowManager) : Screen :=
  s.updates.foldl (fun screen u => u.paint screen) before

def covers (s : WindowManager) (p : Int32 × Int32) (window : ℕ) : Bool :=
  (s.window window).visible && (s.window window).geometry.contains p.1 p.2

/-- The window that the stack has at the pixel: the first visible one that contains it. -/
def top (s : WindowManager) (p : Int32 × Int32) : Option ℕ := s.windows.find? (s.covers p)

/-- The pixel is on the screen. -/
def OnScreen (s : WindowManager) (p : Int32 × Int32) : Prop :=
  p ∈ (Rect.mk 0 0 s.screenWidth s.screenHeight).region

/-- The screen shows the stack of the windows. -/
def Shown (before : Screen) (s : WindowManager) : Prop :=
  ∀ p, s.OnScreen p → s.screen before p = s.top p

end WindowManager

/-! ### The conditions -/

/-- The pixels to the left of, above and diagonally above the given one. -/
def neighbours (p : Int32 × Int32) : List (Int32 × Int32) :=
  [(p.1 - 1, p.2), (p.1, p.2 - 1), (p.1 - 1, p.2 - 1)]

/-- A window with the focus flag has its border at the pixel where another one is in front of it, and
is drawn next to it. -/
def Update.Overdraws (u : Update) (p : Int32 × Int32) : Prop :=
  ∃ w ∈ u.windows, u.focus w.pointer = true ∧ p ∈ border w.geometry ∧
    u.windows.find? (Window.covers p) ≠ some w ∧
      ∃ q ∈ neighbours p, q ∈ u.rect.region ∧ u.windows.find? (Window.covers q) = some w

namespace WindowManager

/-- No border has been drawn over a window in front. -/
def NeverOverdrawn (s : WindowManager) : Prop :=
  ∀ u ∈ s.updates, ∀ p, s.OnScreen p → ¬u.Overdraws p

/-- The window that `switch_focus` takes after `old`. -/
def nextWindow (s : WindowManager) (old : ℕ) : Option ℕ :=
  (s.windows.dropWhile (· ≠ old)).tail.head?.or s.windows.head?

/-- The operation draws again all pixels where another window comes to the front. -/
def Redraws (s : WindowManager) : Op → Prop
  | .create _ geometry => geometry.OnScreen s.screenWidth s.screenHeight
  | .setVisibility window false =>
    (s.window window).visible = true → ∀ p, s.OnScreen p → s.top p = some window →
      s.focused = some window ∧
        ∃ w, s.newFocusWindow window = some w ∧ p ∈ (s.window w).geometry.region
  | .switchFocus =>
    ∀ old new, s.focused = some old → s.nextWindow old = some new → old ≠ new →
      ∀ p, s.OnScreen p → p ∉ (s.window new).geometry.region → s.top p = some old →
        ∀ w ∈ s.windows, s.covers p w = true → w = old
  | _ => True

/-- All that an operation changes on the screen is painted, and by the right window. -/
def Keeps (s : WindowManager) (op : Op) : Prop := s.Redraws op ∧ (s.apply op).NeverOverdrawn

end WindowManager

/-! ### One update -/

variable {r : Rect} {p : Int32 × Int32} {d : Draw} {windows : List Window} {u : Update}

private lemma pred_bounds {a b : Int32} (h : a < b) : a ≤ b - 1 ∧ b - 1 < b := by
  grind

/-- A pixel that is drawn although it is outside has a neighbour inside. -/
lemma exists_neighbour (hr : r.Normal) (hn : r.isNull = false) (hclip : r.clipContains p = true)
    (hout : p ∉ r.region) : ∃ q ∈ neighbours p, q ∈ r.region := by
  have hne : ¬(r.x2 = r.x1 ∨ r.y2 = r.y1) := by
    rw [← Rect.isNull_iff, hn]
    exact Bool.false_ne_true
  obtain ⟨hx, hy⟩ := not_or.mp hne
  have hx := pred_bounds (Std.lt_of_le_of_ne hr.x (Ne.symm hx))
  have hy := pred_bounds (Std.lt_of_le_of_ne hr.y (Ne.symm hy))
  obtain ⟨a, b⟩ := p
  simp only [Rect.clipContains, Bool.and_eq_true, decide_eq_true_eq] at hclip
  obtain ⟨⟨⟨hx₁, hx₂⟩, hy₁⟩, hy₂⟩ := hclip
  simp only [Rect.mem_region, neighbours, List.mem_cons, List.not_mem_nil, or_false,
    exists_eq_or_imp, exists_eq_left] at hout ⊢
  by_cases ha : a = r.x2
  · by_cases hb : b = r.y2
    · subst ha hb
      exact .inr (.inr ⟨hx.1, hx.2, hy.1, hy.2⟩)
    · subst ha
      exact .inl ⟨hx.1, hx.2, hy₁, Std.lt_of_le_of_ne hy₂ hb⟩
  · have hlt := Std.lt_of_le_of_ne hx₂ ha
    by_cases hb : b = r.y2
    · subst hb
      exact .inr (.inl ⟨hx₁, hlt, hy.1, hy.2⟩)
    · exact absurd ⟨hx₁, hlt, hy₁, Std.lt_of_le_of_ne hy₂ hb⟩ hout

/-- A window is drawn in a proper rectangle. -/
lemma of_mem_drawWindows {w : Window} (hd : d ∈ drawWindows windows r) (hw : d.window = some w) :
    w ∈ windows ∧ d.rect.Normal ∧ d.rect.isNull = false := by
  induction windows generalizing r with
  | nil =>
    rw [drawWindows, List.mem_singleton] at hd
    rw [hd] at hw
    exact absurd hw (by simp [drawBackground])
  | cons window next ih =>
    rw [drawWindows_cons] at hd
    split_ifs at hd with hnull hskip
    · exact absurd hd List.not_mem_nil
    · exact (ih hd).imp_left (List.mem_cons_of_mem _)
    · rcases List.mem_cons.mp hd with rfl | hd
      · have hn := (not_or.mp (mt (Bool.or_eq_true _ _).mpr hskip)).2
        rw [← Option.some_inj.mp hw]
        exact ⟨List.mem_cons_self, Rect.normal_intersectionWith _ _, Bool.not_eq_true _ |>.mp hn⟩
      · obtain ⟨s, -, hd⟩ := List.mem_flatMap.mp hd
        exact (ih hd).imp_left (List.mem_cons_of_mem _)

/-- Where no border is drawn over a window in front, each call paints for the first window. -/
lemma window_of_paints (hw : ∀ w ∈ u.windows, w.geometry.Normal) (hr : u.rect.Normal)
    (hover : ¬u.Overdraws p) (hd : d ∈ drawWindows u.windows u.rect)
    (hp : d.paints u.focus p = true) : d.window = u.windows.find? (Window.covers p) := by
  by_cases hin : p ∈ d.region
  · exact window_of_mem_drawWindows hw hr hd hin
  replace hp := ((Bool.or_eq_true _ _).mp hp).resolve_left hin
  rw [Draw.borders] at hp
  cases hwindow : d.window with
  | none =>
    rw [hwindow] at hp
    exact absurd hp Bool.false_ne_true
  | some w =>
    rw [hwindow] at hp
    dsimp only at hp
    rw [Bool.and_eq_true, Bool.and_eq_true] at hp
    obtain ⟨⟨hfocus, hclip⟩, hborder⟩ := hp
    obtain ⟨hmem, hnormal, hnull⟩ := of_mem_drawWindows hd hwindow
    obtain ⟨q, hq, hqd⟩ := exists_neighbour hnormal hnull hclip hin
    have hfirst := window_of_mem_drawWindows hw hr hd hqd
    by_contra hother
    refine hover ⟨w, hmem, hfocus, by simpa using hborder, Ne.symm hother, q, hq, ?_, ?_⟩
    · exact (tiles_drawWindows hw hr).subset hd hqd
    · rw [← hfirst, hwindow]

/-- A value that some writes replace, all by `c`. -/
lemma foldl_writes {α β : Type*} {writes : α → Bool} {f : α → β} {c v : β} {l : List α}
    (hall : ∀ a ∈ l, writes a = true → f a = c) (hany : v = c ∨ ∃ a ∈ l, writes a = true) :
    l.foldl (fun v a => if writes a then f a else v) v = c := by
  induction l generalizing v with
  | nil => simpa using hany
  | cons a l ih =>
    rw [List.foldl_cons]
    apply ih fun b hb => hall b (List.mem_cons_of_mem _ hb)
    by_cases ha : writes a = true
    · rw [if_pos ha]
      exact .inl (hall a List.mem_cons_self ha)
    · rw [if_neg ha]
      rcases hany with rfl | ⟨b, hb, hwrites⟩
      · exact .inl rfl
      · rcases List.mem_cons.mp hb with rfl | hb
        · exact absurd hwrites ha
        · exact .inr ⟨b, hb, hwrites⟩

lemma paint_apply (u : Update) (screen : Screen) (p : Int32 × Int32) : u.paint screen p =
    (drawWindows u.windows u.rect).foldl
      (fun v d => if d.paints u.focus p then d.window.map Window.pointer else v) (screen p) :=
  (List.foldl_hom (fun screen : Screen => screen p) fun _ _ => rfl).symm

/-- An update shows the stack in its rectangle, and leaves it where it was shown. -/
lemma paint_eq {screen : Screen} (hw : ∀ w ∈ u.windows, w.geometry.Normal) (hr : u.rect.Normal)
    (hover : ¬u.Overdraws p) (hp : p ∈ u.rect.region ∨
      screen p = (u.windows.find? (Window.covers p)).map Window.pointer) :
    u.paint screen p = (u.windows.find? (Window.covers p)).map Window.pointer := by
  rw [paint_apply]
  apply foldl_writes
  · intro d hd hpaints
    rw [window_of_paints hw hr hover hd hpaints]
  · rcases hp with hp | hp
    · obtain ⟨d, hd, hdp⟩ := ((tiles_drawWindows hw hr).cover p).mp hp
      refine .inr ⟨d, hd, ?_⟩
      rw [Draw.paints, Bool.or_eq_true]
      exact .inl hdp
    · exact .inl hp

namespace WindowManager

/-! ### What an operation leaves to draw -/

variable {s s' : WindowManager} {before : Screen} {stale : Set (Int32 × Int32)} {window v : ℕ}

/-- All windows are on the screen, and the screen shows them but for the pixels in `stale`. -/
structure Ready (before : Screen) (s : WindowManager) (stale : Set (Int32 × Int32)) : Prop where
  nodup : s.windows.Nodup
  member : ∀ w, s.focused = some w → w ∈ s.windows
  inside : 0 ≤ s.screenWidth → 0 ≤ s.screenHeight → ∀ w ∈ s.windows,
    (s.window w).geometry.OnScreen s.screenWidth s.screenHeight
  shown : s.NeverOverdrawn → ∀ p, s.OnScreen p → p ∉ stale → s.screen before p = s.top p

lemma Ready.mono {stale' : Set (Int32 × Int32)} (h : Ready before s stale)
    (hstale : ∀ p, s.OnScreen p → p ∈ stale → p ∈ stale') : Ready before s stale' :=
  ⟨h.nodup, h.member, h.inside, fun hover p hp hnot => h.shown hover p hp (mt (hstale p hp) hnot)⟩

/-- There is a pixel only on a screen that has a size. -/
lemma OnScreen.size (hp : s.OnScreen p) : 0 ≤ s.screenWidth ∧ 0 ≤ s.screenHeight := by
  obtain ⟨hx, hx', hy, hy'⟩ := (Rect.mem_region p).mp hp
  exact ⟨Std.le_trans hx (Std.le_of_lt hx'), Std.le_trans hy (Std.le_of_lt hy')⟩

/-- What drawing reads of the windows makes out what the stack has at a pixel. -/
lemma find?_drawn : (s.drawn.find? (Window.covers p)).map Window.pointer = s.top p := by
  rw [drawn, List.find?_map, Option.map_map]
  exact congrFun Option.map_id _

lemma top_congr (hwindows : s'.windows = s.windows)
    (hcovers : ∀ w ∈ s.windows, s'.covers p w = s.covers p w) : s'.top p = s.top p := by
  rw [top, top, hwindows]
  exact List.find?_congr hcovers

/-- Nothing has been drawn. -/
structure Undrawn (s s' : WindowManager) : Prop where
  updates : s'.updates = s.updates
  screenWidth : s'.screenWidth = s.screenWidth
  screenHeight : s'.screenHeight = s.screenHeight

lemma Undrawn.onScreen_iff (h : Undrawn s s') : s'.OnScreen p ↔ s.OnScreen p := by
  rw [OnScreen, OnScreen, h.screenWidth, h.screenHeight]

/-- The windows have changed, and the screen is behind where another one is in front. -/
lemma Ready.of_top {stale' : Set (Int32 × Int32)} (h : Ready before s stale) (hsame : Undrawn s s')
    (hnodup : s'.windows.Nodup) (hmember : ∀ w, s'.focused = some w → w ∈ s'.windows)
    (hinside : 0 ≤ s.screenWidth → 0 ≤ s.screenHeight →
      ∀ w ∈ s'.windows, (s'.window w).geometry.OnScreen s.screenWidth s.screenHeight)
    (htop : ∀ p, s.OnScreen p → p ∉ stale' → p ∉ stale ∧ s'.top p = s.top p) :
    Ready before s' stale' where
  nodup := hnodup
  member := hmember
  inside := by
    rw [hsame.screenWidth, hsame.screenHeight]
    exact hinside
  shown := by
    intro hover p hp hnot
    have hp' := hsame.onScreen_iff.mp hp
    have hover' : s.NeverOverdrawn := by
      rw [NeverOverdrawn, ← hsame.updates]
      exact fun u hu q hq => hover u hu q (hsame.onScreen_iff.mpr hq)
    obtain ⟨hfresh, hsametop⟩ := htop p hp' hnot
    rw [hsametop, screen, hsame.updates]
    exact h.shown hover' p hp' hfresh

/-- Nothing that drawing reads has changed. -/
lemma Ready.of_eq (h : Ready before s stale) (hsame : Undrawn s s')
    (hwindows : s'.windows = s.windows) (hmember : ∀ w, s'.focused = some w → w ∈ s.windows)
    (hwindow : ∀ w ∈ s.windows, (s'.window w).geometry = (s.window w).geometry ∧
      (s'.window w).visible = (s.window w).visible) : Ready before s' stale := by
  refine h.of_top hsame (hwindows ▸ h.nodup) (hwindows ▸ hmember) ?_ fun p _ hnot => ⟨hnot, ?_⟩
  · rw [hwindows]
    intro hw hh w hmem
    rw [(hwindow w hmem).1]
    exact h.inside hw hh w hmem
  · refine top_congr hwindows fun w hmem => ?_
    rw [covers, covers, (hwindow w hmem).1, (hwindow w hmem).2]

/-- The messages and the flags do not matter. -/
lemma Ready.modify (h : Ready before s stale) {f : WindowState → WindowState}
    (hf : ∀ ws, (f ws).geometry = ws.geometry ∧ (f ws).visible = ws.visible) :
    Ready before (s.modify window f) stale := by
  refine h.of_eq ⟨rfl, rfl, rfl⟩ rfl h.member fun w _ => ?_
  by_cases hw : w = window
  · subst hw
    simpa [WindowManager.modify] using hf _
  · simp [WindowManager.modify, hw]

lemma Ready.postMessage (h : Ready before s stale) (message : Message) :
    Ready before (s.postMessage window message) stale :=
  h.modify fun _ => ⟨rfl, rfl⟩

lemma Ready.setFocus (h : Ready before s stale) (focus : Bool) :
    Ready before (s.setFocus window focus) stale :=
  h.modify fun _ => ⟨rfl, rfl⟩

lemma Ready.setFocused (h : Ready before s stale) {focused : Option ℕ}
    (hmember : ∀ w, focused = some w → w ∈ s.windows) :
    Ready before { s with focused := focused } stale :=
  h.of_eq ⟨rfl, rfl, rfl⟩ rfl hmember fun _ _ => ⟨rfl, rfl⟩

/-! ### One operation -/

lemma NeverOverdrawn.of_update {rect : Rect} (h : (s.update rect).NeverOverdrawn) :
    s.NeverOverdrawn :=
  fun u hu => h u (List.mem_append_left _ hu)

/-- An update shows what its rectangle contains. -/
lemma Ready.update {rect : Rect} (h : Ready before s stale)
    (hstale : ∀ p, s.OnScreen p → p ∈ stale → p ∈ rect.region)
    (hrect : 0 ≤ s.screenWidth → 0 ≤ s.screenHeight → rect.Normal) :
    Ready before (s.update rect) ∅ where
  nodup := h.nodup
  member := h.member
  inside := h.inside
  shown := by
    intro hover p hp _
    obtain ⟨hwidth, hheight⟩ := hp.size
    have hnormal : ∀ w ∈ s.drawn, w.geometry.Normal := by
      intro w hw
      obtain ⟨v, hv, rfl⟩ := List.mem_map.mp hw
      exact (h.inside hwidth hheight v hv).normal
    have hlast := hover _ (List.mem_append_right _ (List.mem_singleton_self _)) p hp
    have htop : (s.update rect).top p = (s.drawn.find? (Window.covers p)).map Window.pointer :=
      find?_drawn.symm
    have hscreen : (s.update rect).screen before p =
        Update.paint ⟨s.drawn, fun w => (s.window w).focus, rect⟩ (s.screen before) p := by
      rw [screen, WindowManager.update, List.foldl_append]
      rfl
    rw [htop, hscreen]
    refine paint_eq hnormal (hrect hwidth hheight) hlast ?_
    by_cases hin : p ∈ rect.region
    · exact .inl hin
    · refine .inr ?_
      rw [h.shown hover.of_update p hp fun hmem => hin (hstale p hp hmem)]
      exact find?_drawn.symm

/-- A window that is not found can be taken away. -/
lemma find?_erase {α : Type*} [DecidableEq α] {P : α → Bool} {a : α} {l : List α}
    (ha : l.find? P ≠ some a) : (l.erase a).find? P = l.find? P := by
  induction l with
  | nil => rfl
  | cons b l ih =>
    by_cases hP : P b = true
    · rw [List.find?_cons_of_pos hP] at ha ⊢
      have hb : b ≠ a := fun heq => ha (congrArg some heq)
      rw [List.erase_cons_tail (by simpa using hb), List.find?_cons_of_pos hP]
    · rw [List.find?_cons_of_neg hP] at ha ⊢
      by_cases hb : b = a
      · subst hb
        rw [List.erase_cons_head]
      · rw [List.erase_cons_tail (by simpa using hb), List.find?_cons_of_neg hP, ih ha]

lemma not_covers_of_notMem (hp : p ∉ (s.window window).geometry.region) :
    s.covers p window = false := by
  rw [covers, Bool.eq_false_iff.mpr hp, Bool.and_false]

lemma top_ne_of_not_covers (h : s.covers p window = false) : s.top p ≠ some window := by
  intro htop
  rw [List.find?_some htop] at h
  exact Bool.true_eq_false_eq_False h

/-- The window comes to the front. -/
lemma Ready.front (h : Ready before s stale) (hw : window ∈ s.windows)
    (hstale : ∀ p, s.OnScreen p → p ∈ stale → p ∈ (s.window window).geometry.region) :
    Ready before { s with windows := window :: s.windows.erase window }
      (s.window window).geometry.region := by
  refine h.of_top ⟨rfl, rfl, rfl⟩ ?_ ?_ ?_ fun p hp hnot => ⟨mt (hstale p hp) hnot, ?_⟩
  · exact List.nodup_cons.mpr ⟨h.nodup.not_mem_erase, h.nodup.erase _⟩
  · intro v hv
    by_cases heq : v = window
    · exact heq ▸ List.mem_cons_self
    · exact List.mem_cons_of_mem _ ((List.mem_erase_of_ne heq).mpr (h.member v hv))
  · intro hwidth hheight v hv
    rcases List.mem_cons.mp hv with rfl | hv
    · exact h.inside hwidth hheight _ hw
    · exact h.inside hwidth hheight v (List.mem_of_mem_erase hv)
  · have hnever := not_covers_of_notMem hnot
    change List.find? (s.covers p) _ = s.top p
    rw [List.find?_cons_of_neg (by simp [hnever]), find?_erase (top_ne_of_not_covers hnever)]
    rfl

/-- A window that gets the focus is drawn. -/
lemma Ready.raise (h : Ready before s stale) (hw : window ∈ s.windows)
    (hstale : ∀ p, s.OnScreen p → p ∈ stale → p ∈ (s.window window).geometry.region) :
    Ready before (s.raise window) ∅ := by
  let t : WindowManager :=
    { (s.postMessage window .focusIn).setFocus window true with focused := some window }
  have ht : Ready before t stale := by
    refine Ready.setFocused ((h.postMessage _).setFocus _) fun w heq => ?_
    exact Option.some_inj.mp heq ▸ hw
  have hgeometry : (t.window window).geometry = (s.window window).geometry := by
    simp [t, WindowManager.setFocus, WindowManager.postMessage, WindowManager.modify]
  have hfront := ht.front hw (by rw [hgeometry]; exact hstale)
  have hnormal : 0 ≤ t.screenWidth → 0 ≤ t.screenHeight → (t.window window).geometry.Normal :=
    fun hwidth hheight => (ht.inside hwidth hheight window hw).normal
  exact hfront.update (fun _ _ hmem => hmem) hnormal

lemma Ready.dropFocus (h : Ready before s stale) : Ready before (s.dropFocus window) stale :=
  Ready.setFocused ((h.setFocus false).postMessage _) fun _ heq => absurd heq (by simp)

lemma geometry_dropFocus : ((s.dropFocus window).window v).geometry = (s.window v).geometry := by
  rw [dropFocus_window]
  by_cases hv : v = window
  · simp [hv]
  · rw [Function.update_of_ne hv]

/-- The window that gets the focus is drawn, and shows what had to be drawn again. -/
lemma Ready.unfocusWindow (h : Ready before s stale) (hstale : ∀ p, s.OnScreen p → p ∈ stale →
      s.focused = some window ∧
        ∃ w, s.newFocusWindow window = some w ∧ p ∈ (s.window w).geometry.region) :
    Ready before (s.unfocusWindow window) ∅ := by
  by_cases hf : s.focused = some window
  · rw [unfocusWindow_of_focused hf]
    cases hnew : s.newFocusWindow window with
    | none =>
      refine h.dropFocus.mono fun p hp hmem => ?_
      obtain ⟨-, w, hsome, -⟩ := hstale p hp hmem
      exact absurd (hnew.symm.trans hsome) (by simp)
    | some w =>
      refine h.dropFocus.raise (mem_of_newFocusWindow hnew).1 fun p hp hmem => ?_
      obtain ⟨-, w', hsome, hin⟩ := hstale p hp hmem
      rw [← Option.some_inj.mp (hnew.symm.trans hsome)] at hin
      rw [geometry_dropFocus]
      exact hin
  · rw [unfocusWindow_of_ne hf]
    exact h.mono fun p hp hmem => absurd (hstale p hp hmem).1 hf

lemma Ready.focusWindow (h : Ready before s ∅) (hw : window ∈ s.windows) :
    Ready before (s.focusWindow window) ∅ := by
  by_cases hf : s.focused = some window
  · rw [WindowManager.focusWindow, if_pos hf]
    exact h
  · rw [WindowManager.focusWindow, if_neg hf]
    cases s.focused with
    | none => exact h.raise hw fun _ _ hmem => absurd hmem (Set.notMem_empty _)
    | some old =>
      have hun : Ready before (s.unfocusWindow old) ∅ :=
        h.unfocusWindow fun _ _ hmem => absurd hmem (Set.notMem_empty _)
      exact hun.raise (mem_unfocusWindow.mpr hw) fun _ _ hmem => absurd hmem (Set.notMem_empty _)

/-! ### Creating and showing windows -/

lemma Ready.create {geometry : Rect} (h : Ready before s ∅) (hnew : window ∉ s.windows)
    (hgeometry : geometry.OnScreen s.screenWidth s.screenHeight) :
    Ready before { s.modify window (fun _ => ⟨geometry, false, false, []⟩) with
      windows := s.windows ++ [window] } ∅ := by
  have hother : ∀ {v}, v ∈ s.windows → v ≠ window := fun hv heq => hnew (heq ▸ hv)
  refine h.of_top ⟨rfl, rfl, rfl⟩ ?_ ?_ ?_ fun p hp hnot => ⟨hnot, ?_⟩
  · refine List.nodup_append.mpr ⟨h.nodup, by simp, fun v hv w hw => ?_⟩
    exact List.mem_singleton.mp hw ▸ hother hv
  · exact fun v hv => List.mem_append_left _ (h.member v hv)
  · intro hwidth hheight v hv
    rcases List.mem_append.mp hv with hv | hv
    · simpa [WindowManager.modify, hother hv] using h.inside hwidth hheight v hv
    · simpa [WindowManager.modify, List.mem_singleton.mp hv] using hgeometry
  · rw [top, List.find?_append, List.find?_cons_of_neg (by simp [covers, WindowManager.modify]),
      List.find?_nil, Option.or_none]
    apply List.find?_congr
    intro v hv
    simp [covers, WindowManager.modify, hother hv]

/-- A window that gets another geometry and visibility is all that changes. -/
lemma Ready.change (h : Ready before s ∅) {f : WindowState → WindowState}
    (hinside : 0 ≤ s.screenWidth → 0 ≤ s.screenHeight → window ∈ s.windows →
      (f (s.window window)).geometry.OnScreen s.screenWidth s.screenHeight)
    (htop : ∀ p, s.OnScreen p → p ∉ stale → (s.modify window f).top p = s.top p) :
    Ready before (s.modify window f) stale := by
  refine h.of_top ⟨rfl, rfl, rfl⟩ h.nodup h.member ?_ fun p hp hnot =>
    ⟨Set.notMem_empty _, htop p hp hnot⟩
  intro hwidth hheight v hv
  by_cases heq : v = window
  · subst heq
    simpa [WindowManager.modify] using hinside hwidth hheight hv
  · simpa [WindowManager.modify, heq] using h.inside hwidth hheight v hv

lemma covers_modify_of_ne {f : WindowState → WindowState} (hv : v ≠ window) :
    (s.modify window f).covers p v = s.covers p v := by
  simp [covers, WindowManager.modify, hv]

/-- A window that is in front neither before nor after does not matter. -/
lemma top_modify {f : WindowState → WindowState} (hnodup : s.windows.Nodup)
    (hbefore : s.top p ≠ some window) (hafter : (s.modify window f).covers p window = false) :
    (s.modify window f).top p = s.top p := by
  have hmodified := top_ne_of_not_covers hafter
  rw [top] at hbefore hmodified
  rw [top, top, ← find?_erase hbefore, ← find?_erase hmodified]
  apply List.find?_congr
  intro v hv
  exact covers_modify_of_ne (hnodup.mem_erase_iff.mp hv).1

lemma covers_modify_self {f : WindowState → WindowState} : (s.modify window f).covers p window =
    ((f (s.window window)).visible && (f (s.window window)).geometry.contains p.1 p.2) := by
  simp [covers, WindowManager.modify]

lemma focusWindow_of_none (hf : s.focused = none) : s.focusWindow window = s.raise window := by
  rw [WindowManager.focusWindow, hf, if_neg (by simp)]

lemma geometry_modify {f : WindowState → WindowState} :
    ((s.modify window f).window window).geometry = (f (s.window window)).geometry := by
  simp [WindowManager.modify]

/-- The window that gets the focus does not depend on the one that loses it. -/
lemma newFocusWindow_modify {f : WindowState → WindowState} :
    (s.modify window f).newFocusWindow window = s.newFocusWindow window := by
  rw [newFocusWindow, newFocusWindow]
  congr 1
  apply List.filter_congr
  intro w _
  by_cases hw : w = window
  · simp [hw]
  · simp [WindowManager.modify, hw]

lemma Ready.setWindowVisibility (h : Ready before s ∅) (hw : window ∈ s.windows) (visible : Bool)
    (hredraws : s.Redraws (.setVisibility window visible)) :
    Ready before (s.setWindowVisibility window visible) ∅ := by
  by_cases hsame : (s.window window).visible = visible
  · rw [WindowManager.setWindowVisibility, if_pos hsame]
    exact h
  rw [WindowManager.setWindowVisibility, if_neg hsame]
  cases visible with
  | true =>
    -- what the window covers is behind until it is drawn
    have hshow : Ready before (s.modify window fun w => { w with visible := true })
        (s.window window).geometry.region := by
      refine h.change (fun hwidth hheight hmem => h.inside hwidth hheight window hmem) ?_
      intro p hp hnot
      have hnever := not_covers_of_notMem hnot
      refine top_modify h.nodup (top_ne_of_not_covers hnever) ?_
      rw [covers_modify_self, Bool.true_and]
      exact Bool.eq_false_iff.mpr hnot
    have hgeometry : ((s.modify window fun w => { w with visible := true }).window window).geometry =
        (s.window window).geometry := geometry_modify
    simp only [if_true]
    split_ifs with hnone
    · rw [focusWindow_of_none hnone]
      refine Ready.postMessage (hshow.raise hw fun p _ hmem => ?_) _
      rw [hgeometry]
      exact hmem
    · refine (hshow.postMessage _).update ?_ ?_
      · rw [hgeometry]
        exact fun _ _ hmem => hmem
      · exact fun hwidth hheight => (hshow.inside hwidth hheight window hw).normal
  | false =>
    have hvisible : (s.window window).visible = true := by simpa using hsame
    have hhide : Ready before (s.modify window fun w => { w with visible := false })
        {p | s.top p = some window} := by
      refine h.change (fun hwidth hheight hmem => h.inside hwidth hheight window hmem) ?_
      intro p hp hnot
      refine top_modify h.nodup hnot ?_
      rw [covers_modify_self, Bool.false_and]
    have hunfocus : Ready before
        ((s.modify window fun w => { w with visible := false }).unfocusWindow window) ∅ := by
      refine hhide.unfocusWindow fun p hp hmem => ?_
      obtain ⟨hfocused, w, hnew, hin⟩ := hredraws hvisible p hp hmem
      have hne : w ≠ window := (mem_of_newFocusWindow hnew).2.1
      refine ⟨hfocused, w, newFocusWindow_modify.trans hnew, ?_⟩
      simpa [WindowManager.modify, hne] using hin
    simp only [Bool.false_eq_true, if_false]
    split_ifs with hfocused
    · exact hunfocus.postMessage _
    · rw [unfocusWindow_of_ne hfocused] at hunfocus
      exact hunfocus.postMessage _

/-! ### Moving windows -/

/-- A rectangle whose position and size stay the same stays the same. -/
lemma eq_of_not_moved {r r' : Rect} (hmoved : ¬(r.x1 ≠ r'.x1 ∨ r.y1 ≠ r'.y1))
    (hresized : ¬(r.width ≠ r'.width ∨ r.height ≠ r'.height)) : r' = r := by
  simp only [Rect.width, Rect.height] at hresized
  cases r
  cases r'
  simp only [Rect.mk.injEq]
  grind

lemma Ready.setWindowGeometry (h : Ready before s ∅) (hw : window ∈ s.windows) (rect : Rect) :
    Ready before (s.setWindowGeometry window rect) ∅ := by
  let old := (s.window window).geometry
  let new := s.constrain rect
  have hmoved : Ready before (s.modify window fun w => { w with geometry := new })
      (old.region ∪ new.region) := by
    refine h.change (fun hwidth hheight _ => onScreen_constrain rect hwidth hheight) ?_
    intro p hp hnot
    obtain ⟨hold, hnew⟩ := not_or.mp hnot
    refine top_modify h.nodup (top_ne_of_not_covers (not_covers_of_notMem hold)) ?_
    rw [covers_modify_self, Bool.eq_false_iff.mpr hnew, Bool.and_false]
  have hsub : ∀ p, s.OnScreen p → p ∈ old.region ∪ new.region → p ∈ (old.unionWith new).region := by
    intro p hp hmem
    obtain ⟨hwidth, hheight⟩ := hp.size
    exact Rect.region_subset_unionWith (h.inside hwidth hheight window hw).normal hmem
  have hnormal : 0 ≤ s.screenWidth → 0 ≤ s.screenHeight → (old.unionWith new).Normal :=
    fun hwidth hheight => Rect.normal_unionWith (h.inside hwidth hheight window hw).normal
      (onScreen_constrain rect hwidth hheight).normal
  rw [WindowManager.setWindowGeometry]
  by_cases hposition : (s.window window).geometry.x1 ≠ (s.constrain rect).x1 ∨
      (s.window window).geometry.y1 ≠ (s.constrain rect).y1
  · by_cases hsize : (s.window window).geometry.width ≠ (s.constrain rect).width ∨
        (s.window window).geometry.height ≠ (s.constrain rect).height
    · rw [if_pos (.inl hposition), if_pos hsize, if_pos hposition]
      exact ((hmoved.postMessage _).postMessage _).update hsub hnormal
    · rw [if_pos (.inl hposition), if_neg hsize, if_pos hposition]
      exact (hmoved.postMessage _).update hsub hnormal
  · rw [if_neg hposition]
    by_cases hsize : (s.window window).geometry.width ≠ (s.constrain rect).width ∨
        (s.window window).geometry.height ≠ (s.constrain rect).height
    · rw [if_pos (.inr hsize), if_pos hsize]
      exact (hmoved.postMessage _).update hsub hnormal
    · rw [if_neg (not_or.mpr ⟨hposition, hsize⟩), if_neg hsize,
        eq_of_not_moved hposition hsize]
      exact h.of_eq ⟨rfl, rfl, rfl⟩ rfl h.member fun w _ => by simp [WindowManager.modify]

lemma Ready.setWindowGeometryAt (h : Ready before s ∅) (hw : window ∈ s.windows)
    (x y width height : Int32) : Ready before (s.setWindowGeometryAt window x y width height) ∅ := by
  have hlast : ∀ lastX lastY,
      Ready before { s with lastWindowX := lastX, lastWindowY := lastY } ∅ :=
    fun _ _ => h.of_eq ⟨rfl, rfl, rfl⟩ rfl h.member fun _ _ => ⟨rfl, rfl⟩
  rw [WindowManager.setWindowGeometryAt]
  apply Ready.setWindowGeometry
  · split_ifs
    · exact hlast _ _
    · exact hlast _ _
    · exact hlast _ _
    · exact h
  · split_ifs <;> exact hw

/-! ### Destroying windows -/

lemma geometry_raise : ((s.raise window).window v).geometry = (s.window v).geometry := by
  rw [raise_window]
  by_cases hv : v = window
  · simp [hv]
  · rw [Function.update_of_ne hv]

lemma Ready.remove (h : Ready before s ∅) (hw : window ∈ s.windows) :
    Ready before (s.remove window) ∅ := by
  have hunfocus : Ready before (s.unfocusWindow window) ∅ :=
    h.unfocusWindow fun _ _ hmem => absurd hmem (Set.notMem_empty _)
  rw [WindowManager.remove]
  generalize ht : s.unfocusWindow window = t at hunfocus
  have hmem : window ∈ t.windows := ht ▸ mem_unfocusWindow.mpr hw
  have hne : t.focused ≠ some window := ht ▸ unfocusWindow_ne
  have herase : Ready before { t with windows := t.windows.erase window }
      {p | t.top p = some window} := by
    refine hunfocus.of_top ⟨rfl, rfl, rfl⟩ (hunfocus.nodup.erase _) ?_ ?_ ?_
    · intro w hfocused
      have hw' : w ≠ window := fun heq => hne (hfocused.trans (congrArg some heq))
      exact (List.mem_erase_of_ne hw').mpr (hunfocus.member w hfocused)
    · exact fun hwidth hheight w hw => hunfocus.inside hwidth hheight w (List.mem_of_mem_erase hw)
    · exact fun p _ hnot => ⟨Set.notMem_empty _, find?_erase hnot⟩
  have hcovered : ∀ {p}, t.top p = some window → t.covers p window = true :=
    fun htop => List.find?_some htop
  dsimp only
  split_ifs with hvisible
  · refine herase.update (fun p _ htop => ?_) fun hwidth hheight => ?_
    · exact (Bool.and_eq_true _ _ |>.mp (hcovered htop)).2
    · exact (hunfocus.inside hwidth hheight window hmem).normal
  · refine herase.mono fun p _ htop => absurd ?_ hvisible
    exact (Bool.and_eq_true _ _ |>.mp (hcovered htop)).1

lemma Ready.destroyWindow (h : Ready before s ∅) (hw : window ∈ s.windows) :
    Ready before (s.destroyWindow window) ∅ := by
  rw [destroyWindow_eq]
  cases hlast : (s.remove window).windows.getLast? with
  | none => exact h.remove hw
  | some back => exact (h.remove hw).focusWindow (List.mem_of_getLast? hlast)

/-! ### Switching the focus -/

/-- `switch_focus` from a window to another one. -/
lemma switchFocus_of_next {old new : ℕ} (hf : s.focused = some old)
    (hnext : s.nextWindow old = some new) (hne : old ≠ new) : s.switchFocus =
      WindowManager.update { (s.dropFocus old).raise new with
        windows := (new :: s.windows.erase new).erase old ++ [old], updates := s.updates }
        (s.window new).geometry := by
  have hgeometry : (((s.dropFocus old).raise new).window new).geometry = (s.window new).geometry :=
    geometry_raise.trans geometry_dropFocus
  rw [← hgeometry]
  cases hwindows : s.windows with
  | nil => simp [nextWindow, hwindows] at hnext
  | cons front rest =>
    have hnew : ((s.windows.dropWhile (· ≠ old)).tail.head?).getD front = new := by
      rw [nextWindow, hwindows, List.head?_cons, Option.or_some] at hnext
      rw [hwindows]
      exact Option.some_inj.mp hnext
    rw [hwindows] at hnew
    cases s
    subst hwindows hf
    simp only [switchFocus, hnew, if_neg hne]
    rfl

lemma switchFocus_of_same {old : ℕ} (hf : s.focused = some old)
    (hnext : s.nextWindow old = some old) : s.switchFocus = s := by
  cases hwindows : s.windows with
  | nil => simp [nextWindow, hwindows] at hnext
  | cons front rest =>
    rw [nextWindow, hwindows, List.head?_cons, Option.or_some] at hnext
    have hnew := Option.some_inj.mp hnext
    simp only [WindowManager.switchFocus, hwindows, hf, hnew, if_true]

lemma nextWindow_mem {old new : ℕ} (hnext : s.nextWindow old = some new) : new ∈ s.windows := by
  rw [nextWindow, Option.or_eq_some_iff] at hnext
  rcases hnext with hnext | ⟨-, hnext⟩
  · exact (List.dropWhile_sublist _).subset (List.mem_of_mem_tail (List.mem_of_mem_head? hnext))
  · exact List.mem_of_mem_head? hnext

/-- The same window is in front when one comes to the front that is not looked for, and another one
goes to the back that is either not in front or the only one that is looked for. -/
lemma find?_turned {P : ℕ → Bool} {l : List ℕ} {old new : ℕ} (hl : l.Nodup) (hold : old ∈ l)
    (hne : old ≠ new) (hnew : P new = false)
    (honly : l.find? P = some old → ∀ v ∈ l, P v = true → v = old) :
    ((new :: l.erase new).erase old ++ [old]).find? P = l.find? P := by
  have herase : (l.erase new).find? P = l.find? P := by
    apply find?_erase
    intro hfirst
    rw [List.find?_some hfirst] at hnew
    exact absurd hnew (by simp)
  rw [List.erase_cons_tail (by simpa using hne.symm), List.cons_append,
    List.find?_cons_of_neg (by simp [hnew]), List.find?_append]
  by_cases hfirst : l.find? P = some old
  · have hrest : ((l.erase new).erase old).find? P = none := by
      rw [List.find?_eq_none]
      intro v hv hP
      obtain ⟨hvold, hv⟩ := (hl.erase new).mem_erase_iff.mp hv
      exact hvold (honly hfirst v (List.mem_of_mem_erase hv) hP)
    rw [hrest, Option.none_or, List.find?_cons_of_pos (List.find?_some hfirst), hfirst]
  · rw [find?_erase (herase ▸ hfirst), herase]
    cases hfind : l.find? P with
    | none =>
      have hP := List.find?_eq_none.mp hfind old hold
      rw [Option.none_or, List.find?_cons_of_neg hP, List.find?_nil]
    | some v => rfl

lemma Ready.switchFocus (h : Ready before s ∅) (hredraws : s.Redraws .switchFocus) :
    Ready before s.switchFocus ∅ := by
  cases hwindows : s.windows with
  | nil =>
    rw [WindowManager.switchFocus, hwindows]
    exact h
  | cons front rest =>
    cases hf : s.focused with
    | none =>
      rw [WindowManager.switchFocus, hwindows, hf]
      exact h.focusWindow (hwindows ▸ List.mem_cons_self)
    | some old =>
      obtain ⟨new, hnext⟩ : ∃ new, s.nextWindow old = some new := by
        rw [nextWindow, hwindows, List.head?_cons, Option.or_some]
        exact ⟨_, rfl⟩
      by_cases hne : old = new
      · rw [switchFocus_of_same hf (hne ▸ hnext)]
        exact h
      rw [switchFocus_of_next hf hnext hne]
      have hnew := nextWindow_mem hnext
      have hold := h.member old hf
      have hcovers : ∀ p v, covers ((s.dropFocus old).raise new) p v = s.covers p v := by
        intro p v
        rw [covers, covers, visible_raise, visible_dropFocus, geometry_raise, geometry_dropFocus]
      have hturned : Ready before { (s.dropFocus old).raise new with
          windows := (new :: s.windows.erase new).erase old ++ [old], updates := s.updates }
          (s.window new).geometry.region := by
        have hperm : ((new :: s.windows.erase new).erase old ++ [old]).Perm s.windows := by
          have hmem : old ∈ new :: s.windows.erase new :=
            List.mem_cons_of_mem _ ((List.mem_erase_of_ne hne).mpr hold)
          exact ((List.perm_append_singleton _ _).trans (List.perm_cons_erase hmem).symm).trans
            (List.perm_cons_erase hnew).symm
        refine h.of_top ⟨rfl, rfl, rfl⟩ ?_ ?_ ?_ fun p hp hnot => ⟨Set.notMem_empty _, ?_⟩
        · exact hperm.nodup_iff.mpr h.nodup
        · intro v hv
          rw [raise_focused, Option.some_inj] at hv
          exact hperm.mem_iff.mpr (hv ▸ hnew)
        · intro hwidth hheight v hv
          rw [geometry_raise, geometry_dropFocus]
          exact h.inside hwidth hheight v (hperm.mem_iff.mp hv)
        · refine (List.find?_congr fun v _ => hcovers p v).trans ?_
          apply find?_turned h.nodup hold hne (not_covers_of_notMem hnot)
          exact hredraws old new hf hnext hne p hp hnot
      refine hturned.update (fun _ _ hmem => hmem) fun hwidth hheight => ?_
      exact (h.inside hwidth hheight new hnew).normal

/-! ### Runs -/

/-- An operation that draws again all that comes to the front. -/
lemma Ready.apply (h : Ready before s ∅) {op : Op} (hvalid : s.Valid op)
    (hredraws : s.Redraws op) : Ready before (s.apply op) ∅ := by
  cases op with
  | create window geometry => exact (h.create hvalid hredraws).focusWindow (by simp)
  | destroy window => exact h.destroyWindow hvalid
  | setVisibility window visible => exact h.setWindowVisibility hvalid visible hredraws
  | setGeometry window rect => exact h.setWindowGeometry hvalid rect
  | setGeometryAt window x y width height =>
    rw [WindowManager.apply]
    exact h.setWindowGeometryAt hvalid x y width height
  | focus window => exact h.focusWindow hvalid
  | click x y =>
    rw [WindowManager.apply, handleMouseClickEvent]
    split
    · exact h
    · next w hfind => exact h.focusWindow (List.mem_of_find?_eq_some hfind)
  | switchFocus => exact h.switchFocus hredraws

/-- The first update paints the background on the whole screen. -/
lemma ready_init (before : Screen) (screenWidth screenHeight : Int32) :
    Ready before (init screenWidth screenHeight) ∅ := by
  let off : WindowManager := { init screenWidth screenHeight with updates := [] }
  have hoff : Ready before off Set.univ :=
    ⟨List.nodup_nil, fun _ hf => absurd hf (by simp [off, init]),
      fun _ _ w hw => absurd hw List.not_mem_nil, fun _ p _ hnot => absurd (Set.mem_univ p) hnot⟩
  have hwhole : ∀ p, off.OnScreen p → p ∈ Set.univ →
      p ∈ (Rect.ofCorners 0 0 screenWidth screenHeight).region := by
    intro p hp _
    obtain ⟨hwidth, hheight⟩ := hp.size
    have hcorners : Rect.ofCorners 0 0 screenWidth screenHeight = ⟨0, 0, screenWidth, screenHeight⟩ :=
      Rect.ofCorners_of_le hwidth hheight
    rw [hcorners]
    exact hp
  exact hoff.update hwhole fun _ _ => Rect.normal_ofCorners _ _ _ _

lemma neverOverdrawn_init (screenWidth screenHeight : Int32) :
    (init screenWidth screenHeight).NeverOverdrawn := by
  intro u hu p _
  rw [init, List.mem_singleton] at hu
  rintro ⟨w, hw, -⟩
  rw [hu] at hw
  exact absurd hw List.not_mem_nil

/-- The screen shows the stack of the windows throughout a run. -/
def AlwaysShown (before : Screen) (s : WindowManager) (ops : List Op) : Prop :=
  AllStates step (Shown before) s ops

/-- Each operation of a run draws all that it changes on the screen, and nothing over it. -/
def AlwaysKeeps (s : WindowManager) (ops : List Op) : Prop := AllSteps step Keeps s ops

/-- The screen shows the stack as long as all that comes to the front is drawn again. -/
theorem AlwaysKeeps.alwaysShown (before : Screen) (screenWidth screenHeight : Int32) (ops : List Op)
    (h : AlwaysKeeps (init screenWidth screenHeight) ops) :
    AlwaysShown before (init screenWidth screenHeight) ops := by
  refine AllSteps.allStates (I := fun s => Ready before s ∅ ∧ s.NeverOverdrawn) ?_ ?_
    ⟨ready_init before screenWidth screenHeight, neverOverdrawn_init screenWidth screenHeight⟩ h
  · rintro s ⟨hready, hover⟩ p hp
    exact hready.shown hover p hp (Set.notMem_empty p)
  · rintro s op s' ⟨hready, -⟩ hrun ⟨hredraws, hover⟩
    rw [step] at hrun
    split_ifs at hrun with hvalid
    rw [← Option.some_inj.mp hrun]
    exact ⟨hready.apply hvalid hredraws, hover⟩

lemma AlwaysKeeps.cons {op : Op} {ops : List Op} (hvalid : s.Valid op) (hop : s.Keeps op)
    (h : AlwaysKeeps (s.apply op) ops) : AlwaysKeeps s (op :: ops) := by
  intro s' hrun
  rw [step, if_pos hvalid] at hrun
  rw [← Option.some_inj.mp hrun]
  exact ⟨hop, h⟩

/-- Two windows that overlap. -/
theorem AlwaysKeeps.alwaysShown_overlap : AlwaysShown (fun _ => none) (init 60 60)
    [.create 1 .zero, .setVisibility 1 true, .setGeometry 1 ⟨5, 5, 30, 30⟩, .create 2 .zero,
      .setVisibility 2 true, .setGeometry 2 ⟨20, 20, 45, 45⟩] := by
  apply AlwaysKeeps.alwaysShown
  have hover : ∀ s : WindowManager, (s.updates.all fun u => u.windows.all fun w =>
      !u.focus w.pointer || (border w.geometry).all fun p =>
        u.windows.find? (Window.covers p) = some w || (neighbours p).all fun q =>
          !u.rect.contains q.1 q.2 || u.windows.find? (Window.covers q) ≠ some w) = true →
      s.NeverOverdrawn := by
    rintro s h u hu p - ⟨w, hw, hfocus, hborder, hne, q, hq, hrect, hfirst⟩
    simp only [List.all_eq_true, Bool.or_eq_true, Bool.not_eq_true', decide_eq_true_eq] at h
    have hq' := ((h u hu w hw).resolve_left (by simp [hfocus]) p hborder).resolve_left hne q hq
    exact hq'.resolve_left (fun hoff => Bool.false_ne_true (hoff.symm.trans hrect)) hfirst
  have hzero : Rect.zero.OnScreen 60 60 := by
    refine ⟨Rect.normal_zero, ?_, ?_, ?_, ?_⟩ <;> decide
  have hshow : ∀ (s : WindowManager) w, s.Redraws (.setVisibility w true) := fun _ _ => trivial
  refine .cons (by decide) ⟨hzero, hover _ (by decide +kernel)⟩ ?_
  refine .cons (by decide) ⟨hshow _ _, hover _ (by decide +kernel)⟩ ?_
  refine .cons (by decide) ⟨trivial, hover _ (by decide +kernel)⟩ ?_
  refine .cons (by decide) ⟨hzero, hover _ (by decide +kernel)⟩ ?_
  refine .cons (by decide) ⟨hshow _ _, hover _ (by decide +kernel)⟩ ?_
  exact .cons (by decide) ⟨trivial, hover _ (by decide +kernel)⟩ trivial

/-- A window that is shown and put on the screen is still there when it has been hidden. -/
theorem not_alwaysShown_hidden : ¬AlwaysShown (fun _ => none) (init 60 60)
    [.create 1 .zero, .setVisibility 1 true, .setGeometry 1 ⟨5, 5, 35, 35⟩,
      .setVisibility 1 false] := by
  intro hall
  have hlast := (((hall.2 _ rfl).2 _ rfl).2 _ rfl).2 _ rfl
  have honscreen : Rect.contains ⟨0, 0, 60, 60⟩ 10 10 = true := by decide
  have heq := hlast (10, 10) honscreen
  exact absurd heq (by decide +kernel)

end WindowManager

end PiKachulm.Wm
