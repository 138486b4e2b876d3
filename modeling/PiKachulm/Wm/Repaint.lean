import PiKachulm.Wm.Frame

/-!
# Updates of the screen

`draw_windows` should change nothing outside the rectangle, and what it leaves inside should depend on
the windows and on the wallpaper only, so that a second call changes nothing. The focus border is drawn
one row and one column too far; without a wallpaper the bare pixels are left as they are, and so are those
of windows that are too large; and the text of a frame may be blended again and again with a framebuffer.
-/

namespace PiKachulm.Wm

open Core Graphics

/-- What `m_windows` holds: windows with different addresses, the corners of whose geometries are in
order. -/
structure Stack (windows : List Window) : Prop where
  normal : ∀ w ∈ windows, w.geometry.Normal
  pointers : (windows.map Window.pointer).Nodup

/-- A side is so long that `intersects` exchanges its ends, which it does not do with the longest one. -/
def Rect.Overflows (r : Rect) : Prop :=
  (2 ^ 31 ≤ Rect.span r.x1 r.x2 ∧ Rect.span r.x1 r.x2 < 2 ^ 32) ∨
    2 ^ 31 ≤ Rect.span r.y1 r.y2 ∧ Rect.span r.y1 r.y2 < 2 ^ 32

namespace Scene

/-- What an update with `draw_windows` is for. -/
structure Repaints (s : Scene) (framebuffer : ℕ → ℕ → Color) (windows : List Window) (rect : Rect) :
    Prop where
  confined : ∀ screen i, (∀ p ∈ rect.region, i ≠ s.pixel p) →
    (s.drawWindows ⟨screen, framebuffer⟩ windows rect).screen i = screen i
  independent : ∀ screen screen' : ℕ → Color, ∀ p ∈ rect.region,
    (s.drawWindows ⟨screen, framebuffer⟩ windows rect).screen (s.pixel p) =
      (s.drawWindows ⟨screen', framebuffer⟩ windows rect).screen (s.pixel p)
  idempotent : ∀ screen,
    (s.drawWindows (s.drawWindows ⟨screen, framebuffer⟩ windows rect) windows rect).screen =
      (s.drawWindows ⟨screen, framebuffer⟩ windows rect).screen

/-- A window that has the focus is drawn next to a pixel outside the rectangle, and has its border there. -/
def Leaks (s : Scene) (windows : List Window) (rect : Rect) (p : Int32 × Int32) : Prop :=
  ∃ w ∈ windows, s.focus w.pointer = true ∧ p ∈ border w.geometry ∧
    ∃ q ∈ neighbours p, q ∈ rect.region ∧ windows.find? (Window.covers q) = some w

/-- No border leaves the rectangle. -/
def NoLeak (s : Scene) (windows : List Window) (rect : Rect) : Prop :=
  ∀ p ∈ s.screenRect.region, p ∉ rect.region → ¬s.Leaks windows rect p

/-- The pixel gets a new colour: from the first window that contains it, unless this is skipped, or from the
wallpaper. -/
def Paints (s : Scene) (windows : List Window) (p : Int32 × Int32) : Prop :=
  match windows.find? (Window.covers p) with
  | some w => ¬w.geometry.Overflows
  | none => s.wallpaper ≠ none

/-- A component of a cell with the value `x` on which the frame is drawn `k` times, and over which the border is
drawn `n` times when it has been copied. -/
def seen (s : Scene) (w : Window) (i shift k n x : ℕ) : ℕ :=
  (mix 0xAA (component shift focusColor))^[n] ((mixText 255 (s.frameAlphas w i))^[k] x)

/-- The cell `i` of the framebuffer looks the same when the frame has been drawn `k` times and when it has been
drawn `m` times more: the title bar or a line hides it, or the text makes no component any whiter. -/
def Settles (s : Scene) (w : Window) (i k m n : ℕ) (v : Color) : Prop :=
  s.Hides w i ∨ ∀ shift ∈ shifts,
    s.seen w i shift (k + m) n (component shift v) = s.seen w i shift k n (component shift v)

/-- When the update does what it is for. A window is drawn in parts; at a pixel it shows the frame as it is
after the part with this pixel and those before. -/
structure CanRepaint (s : Scene) (framebuffer : ℕ → ℕ → Color) (windows : List Window) (rect : Rect) :
    Prop where
  paints : ∀ p ∈ rect.region, s.Paints windows p
  noLeak : s.NoLeak windows rect
  settles : ∀ l₁ d l₂ w, Wm.drawWindows windows rect = l₁ ++ d :: l₂ → d.window = some w →
    ∀ p ∈ d.rect.region, s.Settles w (offsetOf w.geometry p) (l₁.countP (·.window = some w) + 1)
      ((Wm.drawWindows windows rect).countP (·.window = some w))
        ((d :: l₂).map fun e => s.borderCount e p).sum (framebuffer w.pointer (offsetOf w.geometry p))

/-! ### The calls -/

variable {s : Scene} {framebuffer : ℕ → ℕ → Color} {windows : List Window} {rect : Rect}
  {p : Int32 × Int32} {d : Draw} {w : Window} {c : Canvas} {l l₁ l₂ : List Draw}

/-- The rectangles of the calls are parts of the given one, and of the windows they are about. -/
lemma drawn_of_mem (hw : ∀ w ∈ windows, w.geometry.Normal) (hr : rect.Normal)
    (hd : d ∈ Wm.drawWindows windows rect) : d.rect.Normal ∧ d.rect.Within rect ∧
      ∀ w, d.window = some w → w ∈ windows ∧ w.visible = true ∧ d.rect.Within w.geometry ∧
        d.rect.isNull = false := by
  induction windows generalizing rect with
  | nil =>
    rw [Wm.drawWindows, List.mem_singleton] at hd
    rw [hd]
    refine ⟨hr, .refl rect, fun w hw => ?_⟩
    cases hw
  | cons window next ih =>
    have hnext : ∀ w ∈ next, w.geometry.Normal := fun w h => hw w (List.mem_cons_of_mem _ h)
    have hmono : ∀ {r : Rect}, r.Normal → r.Within rect → d ∈ Wm.drawWindows next r → d.rect.Normal ∧
        d.rect.Within rect ∧ ∀ w, d.window = some w → w ∈ window :: next ∧ w.visible = true ∧
          d.rect.Within w.geometry ∧ d.rect.isNull = false := by
      intro r hr hin hd
      obtain ⟨hnormal, hwithin, hwindow⟩ := ih hnext hr hd
      refine ⟨hnormal, hwithin.trans hin, fun w hw => ?_⟩
      exact (hwindow w hw).imp_left (List.mem_cons_of_mem _)
    rw [drawWindows_cons] at hd
    split_ifs at hd with hnull hskip
    · exact absurd hd List.not_mem_nil
    · exact hmono hr (.refl rect) hd
    · obtain ⟨hvisible, hn⟩ := not_or.mp (mt (Bool.or_eq_true _ _).mpr hskip)
      have hn := Bool.not_eq_true _ |>.mp hn
      have hwindow := hw window List.mem_cons_self
      have hin := Rect.within_intersectionWith hr hwindow hn
      rcases List.mem_cons.mp hd with rfl | hd
      · refine ⟨Rect.normal_intersectionWith _ _, hin, fun w hw => ?_⟩
        obtain rfl : window = w := Option.some_inj.mp hw
        refine ⟨List.mem_cons_self, by simpa using hvisible, ?_, hn⟩
        rw [Rect.intersectionWith_comm] at hn ⊢
        exact Rect.within_intersectionWith hwindow hr hn
      · obtain ⟨e, he, hd⟩ := List.mem_flatMap.mp hd
        exact hmono (Rect.normal_of_mem_around he)
          (Rect.within_of_mem_around hr (Rect.normal_intersectionWith _ _) hin he) hd

/-- A part of a window that lies on the screen meets the window, unless this is too large. -/
lemma intersects_iff_of_within {src rect : Rect} (hsrc : src.Normal) (hrect : rect.Normal) (hin : rect.Within src)
    (hnull : rect.isNull = false) (hx : 0 ≤ rect.x1) (hy : 0 ≤ rect.y1) :
    src.intersects rect = true ↔ ¬src.Overflows := by
  obtain ⟨hltx, hlty⟩ := hrect.lt hnull
  have ⟨hl, hr, ht, hb⟩ := hin
  have hlost : ∀ {a b c d : Int32}, a ≤ c → d ≤ b → c < d → 0 ≤ c →
      (Rect.Lost a b c d ↔ 2 ^ 31 ≤ Rect.span a b ∧ Rect.span a b < 2 ^ 32) := by
    intro a b c d hac hdb hcd hc
    have hd := d.toInt_lt
    rw [Int32.le_iff_toInt_le] at hac hdb hc
    rw [Int32.lt_iff_toInt_lt] at hcd
    rw [Int32.toInt_zero] at hc
    simp only [Rect.Lost, Rect.span]
    omega
  have hapart : ¬Rect.Apart src rect := by
    rintro ((h | h) | h | h) <;> grind
  have hsrcnull : src.isNull = false := by
    have hnonempty := (Rect.region_nonempty_iff hrect).mpr hnull
    exact (Rect.region_nonempty_iff hsrc).mp (hnonempty.mono (Rect.region_subset_of_within hin))
  rw [Rect.intersects_iff hsrc hrect, and_iff_right ⟨hsrcnull, hnull⟩, or_iff_left hapart, Rect.TooLong,
    hlost hl hr hltx hx, hlost ht hb hlty hy, Rect.Overflows]

lemma drawable_of_mem (hstack : Stack windows) (hr : rect.Normal) (hin : rect.Within s.screenRect)
    (hd : d ∈ Wm.drawWindows windows rect) (h : ∀ w, d.window = some w → ¬w.geometry.Overflows) :
    s.Drawable d := by
  obtain ⟨hnormal, hwithin, hwindow⟩ := drawn_of_mem hstack.normal hr hd
  have hscreen := hwithin.trans hin
  refine ⟨hnormal, hscreen, fun w hw => (hwindow w hw).2.1, fun w hw => (hwindow w hw).2.2.1,
    fun w hw => (hwindow w hw).2.2.2, fun w hw => ?_⟩
  obtain ⟨hmem, -, hwin, hnull⟩ := hwindow w hw
  exact (intersects_iff_of_within (hstack.normal w hmem) hnormal hwin hnull hscreen.left hscreen.top).mpr (h w hw)

/-- A window that is too large is skipped by `draw_window`. -/
lemma draw_of_overflows (hstack : Stack windows) (hr : rect.Normal) (hin : rect.Within s.screenRect)
    (hd : d ∈ Wm.drawWindows windows rect) (hw : d.window = some w) (h : w.geometry.Overflows) (c : Canvas) :
    s.draw c d = c := by
  obtain ⟨hnormal, hwithin, hwindow⟩ := drawn_of_mem hstack.normal hr hd
  obtain ⟨hmem, hvisible, hwin, hnull⟩ := hwindow w hw
  have hscreen := hwithin.trans hin
  have hskip : w.geometry.intersects d.rect = false := by
    rw [Bool.eq_false_iff]
    exact fun hmeets => (intersects_iff_of_within (hstack.normal w hmem) hnormal hwin hnull hscreen.left
      hscreen.top).mp hmeets h
  rw [draw, hw]
  dsimp only
  rw [drawWindow, hvisible, hskip]
  rfl

/-! ### Outside the rectangle -/

/-- A border that is drawn over a pixel outside the rectangle leaks. -/
lemma leaks_of_borderCount (hstack : Stack windows) (hr : rect.Normal) (hd : d ∈ Wm.drawWindows windows rect)
    (hout : p ∉ rect.region) (hcount : s.borderCount d p ≠ 0) : s.Leaks windows rect p := by
  cases hw : d.window with
  | none => exact absurd (by rw [borderCount, hw]) hcount
  | some w =>
    obtain ⟨hnormal, hwithin, hwindow⟩ := drawn_of_mem hstack.normal hr hd
    obtain ⟨hmem, -, -, hnull⟩ := hwindow w hw
    rw [borderCount, hw] at hcount
    dsimp only at hcount
    split_ifs at hcount with hdrawn
    · rw [Bool.and_eq_true] at hdrawn
      have hout' : p ∉ d.rect.region := fun h => hout (Rect.region_subset_of_within hwithin h)
      obtain ⟨q, hq, hqd⟩ := exists_neighbour hnormal hnull hdrawn.2 hout'
      have hfirst := window_of_mem_drawWindows hstack.normal hr hd hqd
      refine ⟨w, hmem, hdrawn.1, List.count_pos_iff.mp (Nat.pos_of_ne_zero hcount), q, hq, ?_, ?_⟩
      · exact Rect.region_subset_of_within hwithin hqd
      · rw [← hfirst, hw]
    · exact absurd rfl hcount

/-- Calls that draw no border over a cell outside the rectangle keep it. -/
lemma foldl_draw_outside {i : ℕ} (hs : s.Fits) (hl : ∀ d ∈ l, s.Drawable d ∧ d.rect.Within rect)
    (hcount : ∀ d ∈ l, ∀ p ∈ s.screenRect.region, p ∉ rect.region → s.borderCount d p = 0)
    (hi : ∀ p ∈ rect.region, i ≠ s.pixel p) : (l.foldl s.draw c).screen i = c.screen i := by
  induction l generalizing c with
  | nil => rfl
  | cons d l ih =>
    rw [List.foldl_cons, ih (fun d hd => hl d (List.mem_cons_of_mem _ hd)) fun d hd =>
      hcount d (List.mem_cons_of_mem _ hd)]
    obtain ⟨hd, hwithin⟩ := hl d List.mem_cons_self
    by_cases hcell : ∀ q ∈ s.screenRect.region, i ≠ s.pixel q
    · exact draw_cell hs hd hcell c
    · obtain ⟨p, hp, rfl⟩ : ∃ p ∈ s.screenRect.region, i = s.pixel p := by
        simpa only [not_forall, not_ne_iff, exists_prop] using hcell
      have hout : p ∉ rect.region := fun h => hi p h rfl
      have hout' : ¬d.rect.contains p.1 p.2 = true := fun h => hout (Rect.region_subset_of_within hwithin h)
      rw [draw_pixel hs hd hp, hcount d List.mem_cons_self p hp hout, if_neg hout']
      rfl

/-! ### Inside the rectangle -/

/-- Calls for other pixels only draw the border, so and so often. -/
lemma foldl_draw_tint (hs : s.Fits) (hp : p ∈ s.screenRect.region) (hl : ∀ d ∈ l, s.Drawable d)
    (hout : ∀ d ∈ l, ¬d.rect.contains p.1 p.2 = true) :
    (l.foldl s.draw c).screen (s.pixel p) =
      tint (l.map fun d => s.borderCount d p).sum (c.screen (s.pixel p)) := by
  induction l generalizing c with
  | nil => rfl
  | cons d l ih =>
    rw [List.foldl_cons, ih (fun d hd => hl d (List.mem_cons_of_mem _ hd)) fun d hd =>
      hout d (List.mem_cons_of_mem _ hd), draw_pixel hs (hl d List.mem_cons_self) hp,
      if_neg (hout d List.mem_cons_self), List.map_cons, List.sum_cons, tint, tint, tint, Nat.add_comm,
      Function.iterate_add_apply]

/-- A pixel has the colour that the call for it copies, with the borders that are drawn from then on. -/
lemma screen_of_call (hs : s.Fits) (hl : ∀ e ∈ l₁ ++ d :: l₂, s.Drawable e)
    (hdisjoint : (l₁ ++ d :: l₂).Pairwise fun d d' => Disjoint d.region d'.region) (hp : p ∈ d.rect.region)
    (c : Canvas) : ((l₁ ++ d :: l₂).foldl s.draw c).screen (s.pixel p) =
      tint ((d :: l₂).map fun e => s.borderCount e p).sum (s.colorAt (l₁.foldl s.draw c) d p) := by
  have hd := hl d (by simp)
  have hscreen := hd.region_subset hp
  have hcontains : d.rect.contains p.1 p.2 = true := hp
  have hout : ∀ e ∈ l₂, ¬e.rect.contains p.1 p.2 = true := by
    intro e he hmem
    have hpair := (List.pairwise_cons.mp (List.pairwise_append.mp hdisjoint).2.1).1 e he
    exact hpair.notMem_of_mem_left hp hmem
  rw [List.foldl_append, List.foldl_cons, foldl_draw_tint hs hscreen (fun e he => hl e (by simp [he])) hout,
    draw_pixel hs hd hscreen, if_pos hcontains, List.map_cons, List.sum_cons, tint, tint, tint, Nat.add_comm,
    Function.iterate_add_apply]

/-- Each call for a window draws its frame once more. -/
lemma framebuffer_foldl (hl : ∀ d ∈ l, s.Drawable d)
    (hpointer : ∀ d ∈ l, ∀ w', d.window = some w' → w'.pointer = w.pointer → w' = w) (c : Canvas) :
    (l.foldl s.draw c).framebuffer w.pointer =
      (Access.run (s.frame w))^[l.countP (·.window = some w)] (c.framebuffer w.pointer) := by
  induction l generalizing c with
  | nil => rfl
  | cons d l ih =>
    rw [List.foldl_cons, ih (fun e he => hl e (List.mem_cons_of_mem _ he))
      fun e he => hpointer e (List.mem_cons_of_mem _ he)]
    have hd := hl d List.mem_cons_self
    cases hw : d.window with
    | none => rw [draw_background hw, List.countP_cons_of_neg (by simp [hw])]
    | some w' =>
      rw [draw_window hd hw]
      by_cases heq : w' = w
      · rw [List.countP_cons_of_pos (by simp [hw, heq]), Function.iterate_succ_apply, heq]
        dsimp only
        rw [Function.update_self, framed]
      · have hne : w.pointer ≠ w'.pointer := fun h => heq (hpointer d List.mem_cons_self w' hw h.symm)
        rw [List.countP_cons_of_neg (by simp [hw, heq])]
        dsimp only
        rw [Function.update_of_ne hne]

/-! ### The whole update -/

/-- Every pixel of the rectangle belongs to a call, and to one for the first window. -/
lemma exists_call (hstack : Stack windows) (hr : rect.Normal) (hp : p ∈ rect.region) :
    ∃ d ∈ Wm.drawWindows windows rect, d.rect.contains p.1 p.2 = true :=
  ((tiles_drawWindows hstack.normal hr).cover p).mp hp

/-- Calls with the same framebuffer are for the same window. -/
lemma eq_of_pointer (hstack : Stack windows) (hr : rect.Normal) (hw : w ∈ windows)
    (hd : d ∈ Wm.drawWindows windows rect) :
    ∀ w', d.window = some w' → w'.pointer = w.pointer → w' = w := by
  intro w' hw' hpointer
  have hmem' := ((drawn_of_mem hstack.normal hr hd).2.2 w' hw').1
  exact List.inj_on_of_nodup_map hstack.pointers hmem' hw hpointer

lemma framebuffer_drawWindows (hstack : Stack windows) (hr : rect.Normal) (hw : w ∈ windows)
    (hall : ∀ d ∈ Wm.drawWindows windows rect, s.Drawable d) (i : ℕ) (c : Canvas) :
    (s.drawWindows c windows rect).framebuffer w.pointer i =
      (Access.effect (s.frame w) i)^[(Wm.drawWindows windows rect).countP (·.window = some w)]
        (c.framebuffer w.pointer i) := by
  rw [drawWindows, framebuffer_foldl hall fun d hd => eq_of_pointer hstack hr hw hd, Access.iterate_run_apply]

/-- What the update shows of a window. -/
lemma drawWindows_pixel (hs : s.Fits) (hstack : Stack windows) (hr : rect.Normal)
    (hall : ∀ d ∈ Wm.drawWindows windows rect, s.Drawable d)
    (hl : Wm.drawWindows windows rect = l₁ ++ d :: l₂) (hw : d.window = some w) (hp : p ∈ d.rect.region)
    (c : Canvas) : (s.drawWindows c windows rect).screen (s.pixel p) =
      tint ((d :: l₂).map fun e => s.borderCount e p).sum
        ((Access.effect (s.frame w) (offsetOf w.geometry p))^[l₁.countP (·.window = some w) + 1]
          (c.framebuffer w.pointer (offsetOf w.geometry p))) := by
  have hmem : d ∈ Wm.drawWindows windows rect := by simp [hl]
  have hwindow := ((drawn_of_mem hstack.normal hr hmem).2.2 w hw).1
  have hpre : ∀ e ∈ l₁, e ∈ Wm.drawWindows windows rect := fun e he => by simp [hl, he]
  have hdisjoint := (tiles_drawWindows hstack.normal hr).disjoint
  rw [hl] at hdisjoint
  rw [drawWindows, hl, screen_of_call hs (hl ▸ hall) hdisjoint hp, colorAt, hw]
  dsimp only
  rw [colorOf, framed, Access.run_apply, framebuffer_foldl (fun e he => hall e (hpre e he))
    fun e he => eq_of_pointer hstack hr hwindow (hpre e he), Access.iterate_run_apply, Function.iterate_succ_apply']

/-- What it shows where there is no window. -/
lemma drawWindows_bare (hs : s.Fits) (hstack : Stack windows) (hr : rect.Normal)
    (hall : ∀ d ∈ Wm.drawWindows windows rect, s.Drawable d)
    (hl : Wm.drawWindows windows rect = l₁ ++ d :: l₂) (hw : d.window = none) (hwallpaper : s.wallpaper ≠ none)
    (hp : p ∈ d.rect.region) (c c' : Canvas) : (s.drawWindows c windows rect).screen (s.pixel p) =
      (s.drawWindows c' windows rect).screen (s.pixel p) := by
  obtain ⟨colors, hcolors⟩ := Option.ne_none_iff_exists'.mp hwallpaper
  have hdisjoint := (tiles_drawWindows hstack.normal hr).disjoint
  rw [hl] at hdisjoint
  rw [drawWindows, drawWindows, hl, screen_of_call hs (hl ▸ hall) hdisjoint hp,
    screen_of_call hs (hl ▸ hall) hdisjoint hp, colorAt, colorAt, hw, hcolors]

lemma drawWindows_outside {i : ℕ} (hs : s.Fits) (hstack : Stack windows) (hr : rect.Normal)
    (hall : ∀ d ∈ Wm.drawWindows windows rect, s.Drawable d)
    (h : s.NoLeak windows rect) (hi : ∀ p ∈ rect.region, i ≠ s.pixel p) (c : Canvas) :
    (s.drawWindows c windows rect).screen i = c.screen i := by
  refine foldl_draw_outside hs ?_ ?_ hi
  · exact fun d hd => ⟨hall d hd, (drawn_of_mem hstack.normal hr hd).2.1⟩
  · intro d hd p hp hout
    by_contra hcount
    exact h p hp hout (leaks_of_borderCount hstack hr hd hout hcount)

/-! ### Colours under the border -/

variable {i k m n : ℕ} {v : Color}

lemma component_tint {shift : ℕ} (hshift : shift ∈ shifts) (n : ℕ) (v : Color) :
    component shift (tint n v) = (mix 0xAA (component shift focusColor))^[n] (component shift v) :=
  component_iterate (fun _ => component_blend hshift) n v

lemma tint_lt (hv : v.toNat < 2 ^ 24) (n : ℕ) : (tint n v).toNat < 2 ^ 24 := by
  rw [tint]
  cases n with
  | zero => exact hv
  | succ n =>
    rw [Function.iterate_succ_apply']
    exact Painter.blend_lt _ _

lemma tint_ne {n : ℕ} (hn : n ≠ 0) : tint n 0xffffffff ≠ 0xffffffff := by
  obtain ⟨n, rfl⟩ := Nat.exists_eq_succ_of_ne_zero hn
  intro heq
  have hlt := Painter.blend_lt focusColor (tint n 0xffffffff)
  rw [tint, ← Function.iterate_succ_apply' (blend focusColor), ← tint, heq] at hlt
  exact absurd hlt (by decide)

/-- The border does not make black and white the same: the blue components stay on both sides of its own. -/
lemma tint_black_ne (n : ℕ) : tint n 0 ≠ tint n 0xffffffff := by
  have hblue : component 0 focusColor = 184 := rfl
  have hblack : ∀ n, (mix 0xAA 184)^[n] 0 < 184 := by
    intro n
    induction n with
    | zero => decide
    | succ n ih =>
      rw [Function.iterate_succ_apply', mix]
      omega
  have hwhite : ∀ n, 184 ≤ (mix 0xAA 184)^[n] 255 := by
    intro n
    induction n with
    | zero => decide
    | succ n ih =>
      rw [Function.iterate_succ_apply', mix]
      omega
  intro heq
  have hcomponent := congrArg (component 0) heq
  rw [component_tint (by decide), component_tint (by decide), hblue] at hcomponent
  have h₀ := hblack n
  have h₁ := hwhite n
  change (mix 0xAA 184)^[n] 0 = (mix 0xAA 184)^[n] 255 at hcomponent
  omega

/-- A cell over which text is drawn has no alpha. -/
lemma effect_frame_lt (h : s.frameAlphas w i ≠ []) (v : Color) :
    (Access.effect (s.frame w) i v).toNat < 2 ^ 24 := by
  obtain ⟨alphas, alpha, hlast⟩ := (List.eq_nil_or_concat' _).resolve_left h
  rw [effect_frame, hlast, List.foldl_append]
  exact Painter.blend_lt _ _

/-- The cell looks the same when the frame is drawn more often. -/
lemma settles_iff : s.Settles w i (k + 1) m n v ↔
    tint n ((Access.effect (s.frame w) i)^[k + 1 + m] v) = tint n ((Access.effect (s.frame w) i)^[k + 1] v) := by
  rw [Settles]
  by_cases hhides : s.Hides w i
  · refine iff_of_true (.inl hhides) ?_
    rw [Function.iterate_add_apply, hhides.iterate k]
  rw [or_iff_right hhides]
  have hseen : ∀ shift ∈ shifts, ∀ k, component shift (tint n ((Access.effect (s.frame w) i)^[k] v)) =
      s.seen w i shift k n (component shift v) := by
    intro shift hshift k
    rw [component_tint hshift, component_iterate (component_frame hhides hshift), seen]
  constructor
  · intro h
    by_cases hnone : s.frameAlphas w i = []
    · have hid : Access.effect (s.frame w) i = id := by
        funext u
        have hsolid : Access.effect (s.solidFrame w) i u = u :=
          Access.effect_of_untouched fun a ha hindex => hhides ⟨a, ha, hindex⟩
        rw [effect_frame, hnone, hsolid]
        rfl
      rw [hid, Function.iterate_id, Function.iterate_id]
    · have hlt : ∀ k, (tint n ((Access.effect (s.frame w) i)^[k + 1] v)).toNat < 2 ^ 24 := by
        intro k
        rw [Function.iterate_succ_apply']
        exact tint_lt (effect_frame_lt hnone _) n
      refine eq_of_component ?_ (hlt k) fun shift hshift => ?_
      · rw [Nat.add_right_comm]
        exact hlt (k + m)
      · rw [hseen shift hshift, hseen shift hshift]
        exact h shift hshift
  · intro heq shift hshift
    rw [← hseen shift hshift, ← hseen shift hshift, heq]

/-! ### When the update does what it is for -/

/-- No window of a call is skipped when each pixel gets a colour. -/
lemma drawable_of_paints (hstack : Stack windows) (hr : rect.Normal) (hin : rect.Within s.screenRect)
    (h : ∀ p ∈ rect.region, s.Paints windows p) (hd : d ∈ Wm.drawWindows windows rect) : s.Drawable d := by
  refine drawable_of_mem hstack hr hin hd fun w hw => ?_
  obtain ⟨hnormal, hwithin, hwindow⟩ := drawn_of_mem hstack.normal hr hd
  obtain ⟨p, hp⟩ := (Rect.region_nonempty_iff hnormal).mpr (hwindow w hw).2.2.2
  have hpaints := h p (Rect.region_subset_of_within hwithin hp)
  rw [Paints, ← window_of_mem_drawWindows hstack.normal hr hd hp, hw] at hpaints
  exact hpaints

/-- The colour of a pixel that gets one depends on the cell of its window. -/
lemma CanRepaint.repaints (hs : s.Fits) (hstack : Stack windows) (hr : rect.Normal)
    (hin : rect.Within s.screenRect) (h : s.CanRepaint framebuffer windows rect) :
    s.Repaints framebuffer windows rect := by
  have hall : ∀ d ∈ Wm.drawWindows windows rect, s.Drawable d :=
    fun d hd => drawable_of_paints hstack hr hin h.paints hd
  have hinside : ∀ p ∈ rect.region, ∀ screen screen' framebuffer', framebuffer' = framebuffer ∨
      framebuffer' = (s.drawWindows ⟨screen, framebuffer⟩ windows rect).framebuffer →
        (s.drawWindows ⟨screen', framebuffer'⟩ windows rect).screen (s.pixel p) =
          (s.drawWindows ⟨screen, framebuffer⟩ windows rect).screen (s.pixel p) := by
    intro p hp screen screen' framebuffer' hframebuffer
    obtain ⟨d, hd, hpd⟩ := exists_call hstack hr hp
    obtain ⟨l₁, l₂, hl⟩ := List.append_of_mem hd
    cases hw : d.window with
    | none =>
      have hpaints := h.paints p hp
      rw [Paints, ← window_of_mem_drawWindows hstack.normal hr hd hpd, hw] at hpaints
      exact drawWindows_bare hs hstack hr hall hl hw hpaints hpd _ _
    | some w =>
      have hmem := ((drawn_of_mem hstack.normal hr hd).2.2 w hw).1
      rw [drawWindows_pixel hs hstack hr hall hl hw hpd, drawWindows_pixel hs hstack hr hall hl hw hpd]
      rcases hframebuffer with rfl | rfl
      · rfl
      · rw [framebuffer_drawWindows hstack hr hmem hall, ← Function.iterate_add_apply]
        exact settles_iff.mp (h.settles l₁ d l₂ w hl hw p hpd)
  have houtside : ∀ c i, (∀ p ∈ rect.region, i ≠ s.pixel p) →
      (s.drawWindows c windows rect).screen i = c.screen i :=
    fun c i hi => drawWindows_outside hs hstack hr hall h.noLeak hi c
  refine ⟨fun screen i hi => houtside _ i hi, fun screen screen' p hp => ?_, fun screen => ?_⟩
  · exact hinside p hp screen' screen framebuffer (.inl rfl)
  · funext i
    by_cases hcell : ∀ p ∈ rect.region, i ≠ s.pixel p
    · exact houtside _ i hcell
    · obtain ⟨p, hp, rfl⟩ : ∃ p ∈ rect.region, i = s.pixel p := by
        simpa only [not_forall, not_ne_iff, exists_prop] using hcell
      exact hinside p hp screen _ _ (.inr rfl)

/-! ### The converse -/

/-- Where no call copies a colour, only borders are drawn. -/
lemma exists_tint (hs : s.Fits) (hp : p ∈ s.screenRect.region) (hl : ∀ d ∈ l, (∀ c, s.draw c d = c) ∨
      s.Drawable d ∧ ∀ c : Canvas, d.rect.contains p.1 p.2 = true → s.colorAt c d p = c.screen (s.pixel p)) :
    ∃ n, ∀ c, (l.foldl s.draw c).screen (s.pixel p) = tint n (c.screen (s.pixel p)) := by
  induction l with
  | nil => exact ⟨0, fun _ => rfl⟩
  | cons d l ih =>
    obtain ⟨n, hn⟩ := ih fun e he => hl e (List.mem_cons_of_mem _ he)
    rcases hl d List.mem_cons_self with hskip | ⟨hd, hcolor⟩
    · refine ⟨n, fun c => ?_⟩
      rw [List.foldl_cons, hskip, hn]
    · refine ⟨n + s.borderCount d p, fun c => ?_⟩
      have hsame : (if d.rect.contains p.1 p.2 then s.colorAt c d p else c.screen (s.pixel p)) =
          c.screen (s.pixel p) := by
        split_ifs with hmem
        · exact hcolor c hmem
        · rfl
      rw [List.foldl_cons, hn, draw_pixel hs hd hp, hsame, tint, tint, tint, Function.iterate_add_apply]

/-- A pixel that gets no colour shows what was there before. -/
lemma Repaints.paints (hs : s.Fits) (hstack : Stack windows) (hr : rect.Normal)
    (hin : rect.Within s.screenRect) (h : s.Repaints framebuffer windows rect) (hp : p ∈ rect.region) :
    s.Paints windows p := by
  by_contra hnot
  have hfirst : ∀ d ∈ Wm.drawWindows windows rect, d.rect.contains p.1 p.2 = true →
      d.window = windows.find? (Window.covers p) :=
    fun d hd hmem => window_of_mem_drawWindows hstack.normal hr hd hmem
  rw [Paints] at hnot
  obtain ⟨n, hn⟩ : ∃ n, ∀ c, (s.drawWindows c windows rect).screen (s.pixel p) =
      tint n (c.screen (s.pixel p)) := by
    refine exists_tint hs (Rect.region_subset_of_within hin hp) fun d hd => ?_
    by_cases hskip : ∃ w, d.window = some w ∧ w.geometry.Overflows
    · obtain ⟨w, hw, hover⟩ := hskip
      exact .inl (draw_of_overflows hstack hr hin hd hw hover)
    · have hnone : ∀ w, d.window = some w → ¬w.geometry.Overflows := fun w hw hover => hskip ⟨w, hw, hover⟩
      refine .inr ⟨drawable_of_mem hstack hr hin hd hnone, fun c hmem => ?_⟩
      rw [← hfirst d hd hmem] at hnot
      rw [colorAt]
      cases hw : d.window with
      | none =>
        rw [hw] at hnot
        rw [not_not.mp hnot]
      | some w =>
        rw [hw] at hnot
        exact absurd (hnone w hw) hnot
  have hboth := h.independent (fun _ => 0) (fun _ => 0xffffffff) p hp
  rw [hn, hn] at hboth
  exact tint_black_ne n hboth

/-- A pixel next to one of a rectangle is not clipped. -/
lemma clipContains_of_neighbour {r : Rect} {q : Int32 × Int32} (hq : q ∈ neighbours p) (hmem : q ∈ r.region)
    (hp : 0 ≤ p.1 ∧ 0 ≤ p.2) : r.clipContains p = true := by
  obtain ⟨hx, hx', hy, hy'⟩ := (Rect.mem_region q).mp hmem
  have hnext : ∀ a first stop : Int32, 0 ≤ a → first ≤ a - 1 → a - 1 < stop → first ≤ a ∧ a ≤ stop := by
    intro a first stop h₀ h₁ h₂
    grind
  have hsame : ∀ a first stop : Int32, first ≤ a → a < stop → first ≤ a ∧ a ≤ stop := by
    intro a first stop h₁ h₂
    grind
  have hclip : (r.x1 ≤ p.1 ∧ p.1 ≤ r.x2) ∧ r.y1 ≤ p.2 ∧ p.2 ≤ r.y2 := by
    simp only [neighbours, List.mem_cons, List.not_mem_nil, or_false] at hq
    rcases hq with rfl | rfl | rfl
    · exact ⟨hnext _ _ _ hp.1 hx hx', hsame _ _ _ hy hy'⟩
    · exact ⟨hsame _ _ _ hx hx', hnext _ _ _ hp.2 hy hy'⟩
    · exact ⟨hnext _ _ _ hp.1 hx hx', hnext _ _ _ hp.2 hy hy'⟩
  rw [Rect.clipContains]
  simp [hclip]

/-- A border that leaks is drawn. -/
lemma exists_borderCount (hstack : Stack windows) (hr : rect.Normal) (hp : p ∈ s.screenRect.region)
    (h : s.Leaks windows rect p) : ∃ d ∈ Wm.drawWindows windows rect, s.borderCount d p ≠ 0 := by
  obtain ⟨w, -, hfocus, hborder, q, hq, hqr, hfirst⟩ := h
  obtain ⟨d, hd, hqd⟩ := exists_call hstack hr hqr
  have hwindow := window_of_mem_drawWindows hstack.normal hr hd hqd
  refine ⟨d, hd, ?_⟩
  obtain ⟨hx, -, hy, -⟩ := (Rect.mem_region p).mp hp
  have hclip : d.rect.clipContains p = true := clipContains_of_neighbour hq hqd ⟨hx, hy⟩
  rw [borderCount, hwindow, hfirst]
  dsimp only
  rw [hfocus, hclip, Bool.and_self, if_pos rfl]
  exact (List.count_pos_iff.mpr hborder).ne'

lemma Repaints.noLeak (hs : s.Fits) (hstack : Stack windows) (hr : rect.Normal)
    (hin : rect.Within s.screenRect) (h : s.Repaints framebuffer windows rect) : s.NoLeak windows rect := by
  intro p hp hout hleaks
  obtain ⟨d, hd, hcount⟩ := exists_borderCount hstack hr hp hleaks
  have hkept := h.confined (fun _ => 0xffffffff) (s.pixel p) fun q hq heq =>
    hout (hs.pixel_inj hp (Rect.region_subset_of_within hin hq) heq ▸ hq)
  have hnone : ∀ d ∈ Wm.drawWindows windows rect, ¬d.rect.contains p.1 p.2 = true :=
    fun d hd hmem => hout (Rect.region_subset_of_within (drawn_of_mem hstack.normal hr hd).2.1 hmem)
  rw [drawWindows, foldl_draw_tint hs hp (fun d hd => drawable_of_paints hstack hr hin
    (fun _ hp => h.paints hs hstack hr hin hp) hd) hnone] at hkept
  refine tint_ne (fun hzero => hcount ?_) hkept
  exact List.sum_eq_zero_iff_forall_eq_nat.mp hzero _ (List.mem_map_of_mem hd)

/-- The second update shows the frame as it is after the calls of both. -/
lemma Repaints.canRepaint (hs : s.Fits) (hstack : Stack windows) (hr : rect.Normal)
    (hin : rect.Within s.screenRect) (h : s.Repaints framebuffer windows rect) :
    s.CanRepaint framebuffer windows rect := by
  have hpaints : ∀ p ∈ rect.region, s.Paints windows p := fun _ hp => h.paints hs hstack hr hin hp
  have hall : ∀ d ∈ Wm.drawWindows windows rect, s.Drawable d :=
    fun d hd => drawable_of_paints hstack hr hin hpaints hd
  refine ⟨hpaints, h.noLeak hs hstack hr hin, fun l₁ d l₂ w hl hw p hp => settles_iff.mpr ?_⟩
  have hd : d ∈ Wm.drawWindows windows rect := by simp [hl]
  have hmem := ((drawn_of_mem hstack.normal hr hd).2.2 w hw).1
  have htwice := congrFun (h.idempotent fun _ => 0) (s.pixel p)
  rw [drawWindows_pixel hs hstack hr hall hl hw hp, drawWindows_pixel hs hstack hr hall hl hw hp,
    framebuffer_drawWindows hstack hr hmem hall, ← Function.iterate_add_apply] at htwice
  exact htwice

/-- An update is confined to its rectangle, independent of what the screen showed and idempotent exactly when
each pixel gets a colour, no border leaks, and no text can be seen to grow whiter. -/
theorem repaints_iff (hs : s.Fits) (hstack : Stack windows) (hr : rect.Normal) (hin : rect.Within s.screenRect) :
    s.Repaints framebuffer windows rect ↔ s.CanRepaint framebuffer windows rect :=
  ⟨fun h => h.canRepaint hs hstack hr hin, fun h => h.repaints hs hstack hr hin⟩

/-- White cells do not grow whiter. -/
lemma settles_of_white (h : ∀ shift ∈ shifts, component shift v = 255) : s.Settles w i k m n v := by
  have htext : ∀ alphas : List UInt8, mixText 255 alphas 255 = 255 := by
    intro alphas
    induction alphas with
    | nil => rfl
    | cons alpha alphas ih =>
      have halpha := alpha.toNat_lt
      have hmix : mix alpha.toNat 255 255 = 255 := by
        rw [mix]
        omega
      rw [mixText, List.foldl_cons, hmix]
      exact ih
  refine .inr fun shift hshift => ?_
  rw [seen, seen, h shift hshift, Function.iterate_fixed (htext _), Function.iterate_fixed (htext _)]

/-- A screen of 40 by 40 pixels with a black wallpaper. Window 1 has the focus and no frame; the title of the
others has two lines. -/
def small : Scene where
  screenWidth := 40
  screenHeight := 40
  screenPitch := 40
  wallpaper := some fun _ => 0
  wallpaperWidth := 40
  font := ⟨8, 16, 8, 16, fun _ _ => 0x80⟩
  icon := fun _ => 0x80
  decoration := fun window => if window = 1 then ⟨false, true, []⟩ else ⟨true, false, [0x41, 0x0a, 0x42]⟩

lemma fits_small : small.Fits := by
  constructor <;> decide

lemma stack_small : Stack [⟨1, ⟨0, 0, 30, 30⟩, true⟩] := by
  constructor
  · intro w hw
    rw [List.mem_singleton.mp hw]
    constructor <;> decide
  · decide

/-- The whole screen is updated, with two windows whose framebuffers are white. -/
theorem repaints_small : small.Repaints (fun _ _ => 0xffffff)
    [⟨1, ⟨0, 0, 30, 30⟩, true⟩, ⟨2, ⟨10, 5, 38, 38⟩, true⟩] ⟨0, 0, 40, 40⟩ := by
  have hnormal : ∀ w ∈ [Window.mk 1 ⟨0, 0, 30, 30⟩ true, ⟨2, ⟨10, 5, 38, 38⟩, true⟩], w.geometry.Normal := by
    simp only [List.mem_cons, List.not_mem_nil, or_false, forall_eq_or_imp, forall_eq]
    refine ⟨⟨?_, ?_⟩, ?_, ?_⟩ <;> decide
  have hshort : ∀ w ∈ [Window.mk 1 ⟨0, 0, 30, 30⟩ true, ⟨2, ⟨10, 5, 38, 38⟩, true⟩], ¬w.geometry.Overflows := by
    simp only [List.mem_cons, List.not_mem_nil, or_false, forall_eq_or_imp, forall_eq, Rect.Overflows]
    decide
  refine (repaints_iff fits_small ⟨hnormal, by decide⟩ ⟨by decide, by decide⟩ (.refl _)).mpr ⟨?_, ?_, ?_⟩
  · intro p _
    rw [Paints]
    cases hw : List.find? (Window.covers p) _ with
    | none => exact nofun
    | some w => exact hshort w (List.mem_of_find?_eq_some hw)
  · exact fun p hp hout => absurd hp hout
  · exact fun l₁ d l₂ w _ _ p _ => settles_of_white (by decide)

/-- The border of the window is drawn in the column behind the rectangle. -/
theorem not_repaints_small :
    ¬small.Repaints (fun _ _ => 0) [⟨1, ⟨0, 0, 30, 30⟩, true⟩] ⟨10, 0, 20, 10⟩ := by
  intro h
  have hr : (Rect.mk 10 0 20 10).Normal := ⟨by decide, by decide⟩
  have hin : (Rect.mk 10 0 20 10).Within small.screenRect := ⟨by decide, by decide, by decide, by decide⟩
  have hscreen : (20, 0) ∈ small.screenRect.region := (Rect.mem_region _).mpr (by decide)
  have hout : (20, 0) ∉ (Rect.mk 10 0 20 10).region := mt (Rect.mem_region _).mp (by decide)
  have hinner : (19, 0) ∈ (Rect.mk 10 0 20 10).region := (Rect.mem_region _).mpr (by decide)
  have hborder : (20, 0) ∈ border ⟨0, 0, 30, 30⟩ := by decide +kernel
  exact h.noLeak fits_small stack_small hr hin (20, 0) hscreen hout
    ⟨_, List.mem_cons_self, rfl, hborder, (19, 0), by decide, hinner, by decide⟩

end Scene

end PiKachulm.Wm
