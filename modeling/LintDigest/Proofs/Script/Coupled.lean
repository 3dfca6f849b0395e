import LintDigest.Proofs.Summary.Course
import LintDigest.Proofs.Tree.Twin

/-!
# Scripts side by side

Two workspaces are twins when their trees are and the same is remembered. `Coupled R Q s s'` says
that courses of `s` and `s'` from twins end in twins, with results that `Q` relates. Scripts are
coupled part by part, so what remains is one fact for each request; writing a file is the one place
where two requests have to be seen together.
-/

namespace LintDigest

open Script LintDigest.Tree

/-- The workspaces differ in moment, events and lock, and in files as `R` says. -/
structure Workspace.Twins (R : String → Entry → Entry → Prop) (w v : Workspace) : Prop where
  tree : Twin R w.tree v.tree
  home : v.home = w.home
  progress : v.progress = w.progress

namespace Workspace

variable {R : String → Entry → Entry → Prop} {w v : Workspace}

theorem twins_refl (hR : Likeness R) (w : Workspace) : Twins R w w :=
  ⟨twin_refl hR w.tree, rfl, rfl⟩

theorem Twins.of_untouched {w' v' : Workspace} (h : Twins R w v) (hw : Untouched w w')
    (hv : Untouched v v') : Twins R w' v' := by
  obtain ⟨htree, hhome, hprogress, -⟩ := hw
  obtain ⟨htree', hhome', hprogress', -⟩ := hv
  refine ⟨?_, ?_, ?_⟩
  · rw [htree, htree']
    exact h.tree
  · rw [hhome, hhome', h.home]
  · rw [hprogress, hprogress', h.progress]

theorem Twins.setNow (h : Twins R w v) (m m' : String) : Twins R (w.setNow m) (v.setNow m') :=
  ⟨h.tree, h.home, h.progress⟩

theorem Twins.change {x x' : Except FileFault Tree} (h : Twins R w v) (hx : Paired (Twin R) x x') :
    (w.change x).1 = (v.change x').1 ∧ Twins R (w.change x).2 (v.change x').2 := by
  cases hx with
  | error e => exact ⟨rfl, h⟩
  | ok hx => exact ⟨rfl, hx, h.home, h.progress⟩

end Workspace

namespace Script

open Workspace

variable {α β γ δ : Type} {R : String → Entry → Entry → Prop}

/-- From twins, courses of both scripts come to twins, with results that `Q` relates. -/
def Coupled (R : String → Entry → Entry → Prop) (Q : α → β → Prop) (s : Script α)
    (s' : Script β) : Prop :=
  ∀ (th : Thread) (w v w' v' : Workspace) (a : α) (b : β), Twins R w v →
    Course th Request.credible s w (done a) w' → Course th Request.credible s' v (done b) v' →
      Q a b ∧ Twins R w' v'

theorem coupled_done {Q : α → β → Prop} {a : α} {b : β} (h : Q a b) :
    Coupled R Q (done a) (done b) := by
  intro th w v w' v' a' b' htwins hs hs'
  obtain ⟨rfl, m, rfl⟩ := hs.of_done
  obtain ⟨rfl, m', rfl⟩ := hs'.of_done
  exact ⟨h, htwins.setNow m m'⟩

theorem Coupled.bind {Q : α → β → Prop} {P : γ → δ → Prop} {s : Script α} {s' : Script β}
    {f : α → Script γ} {f' : β → Script δ} (h : Coupled R Q s s')
    (hf : ∀ a b, Q a b → Coupled R P (f a) (f' b)) : Coupled R P (s >>= f) (s' >>= f') := by
  intro th w v w' v' c d htwins hs hs'
  obtain ⟨a, w₁, hs, hrest⟩ := hs.of_bind
  obtain ⟨b, v₁, hs', hrest'⟩ := hs'.of_bind
  obtain ⟨hq, htwins₁⟩ := h _ _ _ _ _ _ _ htwins hs hs'
  exact hf a b hq _ _ _ _ _ _ _ htwins₁ hrest hrest'

theorem Coupled.imp {Q P : α → β → Prop} {s : Script α} {s' : Script β} (h : Coupled R Q s s')
    (hQP : ∀ a b, Q a b → P a b) : Coupled R P s s' := by
  intro th w v w' v' a b htwins hs hs'
  obtain ⟨hq, htwins'⟩ := h _ _ _ _ _ _ _ htwins hs hs'
  exact ⟨hQP a b hq, htwins'⟩

theorem Coupled.locked {Q : α → β → Prop} {s : Script α} {s' : Script β} (h : Coupled R Q s s') :
    Coupled R Q (locked s) (Script.locked s') := by
  intro th w v w' v' a b htwins hs hs'
  obtain ⟨w₁, w₂, hw₁, hs, hw₂⟩ := hs.of_locked
  obtain ⟨v₁, v₂, hv₁, hs', hv₂⟩ := hs'.of_locked
  obtain ⟨hq, htwins₂⟩ := h _ _ _ _ _ _ _ (htwins.of_untouched hw₁ hv₁) hs hs'
  exact ⟨hq, htwins₂.of_untouched hw₂ hv₂⟩

/-! ## Requests -/

/-- Two requests are coupled when their answers are, at any moment. -/
theorem coupled_request (r r' : Request) {Q : r.Answer → r'.Answer → Prop}
    (h : ∀ (th : Thread) (w v : Workspace), Twins R w v → r.credible (w.answer th r).1 →
      r'.credible (v.answer th r').1 →
      Q (w.answer th r).1 (v.answer th r').1 ∧ Twins R (w.answer th r).2 (v.answer th r').2) :
    Coupled R Q (request r) (request r') := by
  intro th w v w' v' a b htwins hs hs'
  obtain ⟨m, hcredible, hs⟩ := hs.of_ask
  obtain ⟨m', hcredible', hs'⟩ := hs'.of_ask
  obtain ⟨rfl, k, rfl⟩ := hs.of_done
  obtain ⟨rfl, k', rfl⟩ := hs'.of_done
  obtain ⟨hq, hnext⟩ := h th _ _ (htwins.setNow m m') hcredible hcredible'
  exact ⟨hq, hnext.setNow k k'⟩

theorem coupled_log (level : Log.Level) (target message message' : String) :
    Coupled R Eq (log level target message) (log level target message') := by
  refine coupled_request (.log _) (.log _) ?_
  intro th w v h _ _
  exact ⟨rfl, h.tree, h.home, h.progress⟩

theorem coupled_now : Coupled R (fun m m' => '<' ∉ m.toList ∧ '<' ∉ m'.toList)
    (request .now) (request .now) := by
  apply coupled_request
  intro th w v h hm hm'
  exact ⟨⟨hm, hm'⟩, h⟩

theorem coupled_cwd : Coupled R Eq (request .cwd) (request .cwd) := by
  apply coupled_request
  intro th w v h _ _
  exact ⟨congrArg pathOf h.home.symm, h⟩

theorem coupled_countUpdate : Coupled R Eq (request .countUpdate) (request .countUpdate) := by
  apply coupled_request
  intro th w v h _ _
  have hupdates := congrArg (·.updates + 1) h.progress
  have hpending := congrArg Progress.pending h.progress
  exact ⟨hupdates.symm, h.tree, h.home, Progress.mk.injEq .. ▸ ⟨hupdates, hpending⟩⟩

theorem coupled_setPending (pending : Bool) :
    Coupled R Eq (request (.setPending pending)) (request (.setPending pending)) := by
  apply coupled_request
  intro th w v h _ _
  exact ⟨rfl, h.tree, h.home, congrArg (fun progress => { progress with pending }) h.progress⟩

theorem coupled_absolute (p : Path) : Coupled R Eq (absolute p) (absolute p) := by
  unfold absolute
  split
  · exact coupled_done rfl
  · apply coupled_cwd.bind
    rintro cwd _ rfl
    exact coupled_done rfl

section Files

variable (hR : Likeness R) {dir dir' : Path} {m n : String}
include hR

theorem coupled_isPresent (p : Path) : Coupled R Eq (isPresent p) (isPresent p) := by
  have hstat : Coupled R Eq (request (.stat p)) (request (.stat p)) := by
    apply coupled_request
    intro th w v h _ _
    simp only [answer, h.home, h.tree.stat_eq hR]
    exact ⟨trivial, h⟩
  apply hstat.bind
  rintro kind _ rfl
  exact coupled_done rfl

/-- The texts of two files named `n`, or one fault. -/
theorem coupled_read (hn : IsName n) :
    Coupled R (Paired fun text text' => R n (.file (.text text)) (.file (.text text')))
      (request (.read (dir / n))) (request (.read (dir / n))) := by
  refine coupled_request (.read _) (.read _) ?_
  intro th w v h _ _
  refine ⟨?_, h⟩
  simp only [answer, h.home, Tree.read]
  refine .bind (h.tree.resolve hR _ _) ?_
  rintro ⟨place, e⟩ ⟨place', e'⟩ hresolve ⟨-, he⟩
  obtain ⟨-, parent, -, rfl, -⟩ := (resolve_div hn).1 hresolve
  rcases hR.texts _ _ _ he with hsame | ⟨text, text', htext, htext'⟩
  · obtain rfl : e' = e := hsame
    cases e' with
    | dir => exact .error _
    | file c =>
      cases c with
      | binary bytes => exact .error _
      | text text => exact .ok he
  · obtain rfl : e = _ := htext
    obtain rfl : e' = _ := htext'
    exact .ok he

theorem coupled_remove (p : Path) : Coupled R Eq (request (.remove p)) (request (.remove p)) := by
  apply coupled_request
  intro th w v h _ _
  simp only [answer, h.home]
  exact h.change (h.tree.remove hR _ _)

theorem coupled_copy (hm : IsName m) (hn : IsName n)
    (hmn : ∀ c c', R m (.file c) (.file c') → R n (.file c) (.file c')) :
    Coupled R Eq (request (.copy (dir / m) (dir' / n))) (request (.copy (dir / m) (dir' / n))) := by
  apply coupled_request
  intro th w v h _ _
  simp only [answer, h.home]
  exact h.change (h.tree.copy hR hm hn hmn)

theorem twins_rename {w v : Workspace} (h : Twins R w v) (hm : IsName m) (hn : IsName n)
    (th : Thread) (dir dir' : Path)
    (hmn : ∀ c c', w.tree.get? (m :: aim w.home dir) = some (.file c) →
      v.tree.get? (m :: aim w.home dir) = some (.file c') → R n (.file c) (.file c')) :
    (w.answer th (.rename (dir / m) (dir' / n))).1 =
        (v.answer th (.rename (dir / m) (dir' / n))).1 ∧
      Twins R (w.answer th (.rename (dir / m) (dir' / n))).2
        (v.answer th (.rename (dir / m) (dir' / n))).2 := by
  simp only [answer, h.home]
  exact h.change (h.tree.rename hR hm hn hmn)

theorem coupled_rename (hm : IsName m) (hn : IsName n)
    (hmn : ∀ c c', R m (.file c) (.file c') → R n (.file c) (.file c')) :
    Coupled R Eq (request (.rename (dir / m) (dir' / n)))
      (request (.rename (dir / m) (dir' / n))) := by
  apply coupled_request
  intro th w v h _ _
  apply twins_rename hR h hm hn
  intro c c' hc hc'
  exact hmn c c' (h.tree.file_alike hR hc hc')

/-! ## Writing a file -/

theorem coupled_makeDirs (p : Path) :
    Coupled R Eq (request (.makeDirs p)) (request (.makeDirs p)) := by
  apply coupled_request
  intro th w v h _ _
  obtain ⟨hres, htree⟩ := h.tree.makeDirsAlong hR w.home p.ancestors
  simp only [answer, h.home]
  exact ⟨hres.symm, htree, rfl, h.progress⟩

theorem coupled_scratch (dir : Path) :
    Coupled R (Paired fun p p' => p' = p ∧ ∃ k, IsName (scratchName k) ∧ p = dir / scratchName k)
      (request (.scratch dir)) (request (.scratch dir)) := by
  refine coupled_request (.scratch _) (.scratch _) ?_
  intro th w v h _ _
  have hpair := h.tree.scratch hR w.home dir
  simp only [answer, h.home]
  generalize w.tree.scratch w.home dir = x, v.tree.scratch w.home dir = x' at hpair
  cases hpair with
  | error fault => exact ⟨.error fault, h⟩
  | ok hx =>
    obtain ⟨hpath, htree, hname⟩ := hx
    exact ⟨.ok ⟨hpath, hname⟩, htree, rfl, h.progress⟩

theorem twins_fill {text text' : String} {w v : Workspace} (h : Twins R w v) (hn : IsName n)
    (hc : R n (.file (.text text)) (.file (.text text'))) (th : Thread) (dir : Path) :
    (w.answer th (.fill (dir / n) text)).1 = (v.answer th (.fill (dir / n) text')).1 ∧
      Twins R (w.answer th (.fill (dir / n) text)).2 (v.answer th (.fill (dir / n) text')).2 := by
  simp only [answer, h.home]
  exact h.change (h.tree.write hR hn hc)

omit hR in
theorem get?_of_fill {text : String} {th : Thread} {w w' : Workspace} (hn : IsName n)
    (h : w.answer th (.fill (dir / n) text) = (.ok (), w')) :
    w'.tree.get? (n :: aim w'.home dir) = some (.file (.text text)) := by
  simp only [answer, change] at h
  split at h
  · next t hwrite =>
    obtain ⟨-, place, hlead, -, rfl⟩ := (write_div hn).1 hwrite
    obtain rfl := hlead.eq_aim
    obtain rfl := (Prod.mk.inj h).2
    simp [get?_put]
  · cases (Prod.mk.inj h).1

/-- Scratch files may differ as the texts do; they are renamed or removed before anyone reads
them. -/
theorem coupled_replaceFile {text text' : String} (hn : IsName n)
    (hscratch : ∀ k, R (scratchName k) (.file (.text text)) (.file (.text text')))
    (htext : R n (.file (.text text)) (.file (.text text'))) :
    Coupled R Eq (Storage.replaceFile (dir / n) text) (Storage.replaceFile (dir / n) text') := by
  unfold Storage.replaceFile
  generalize Storage.directoryOf (dir / n) = parent
  apply (coupled_makeDirs hR _).bind
  rintro made _ rfl
  cases made with
  | error fault => exact coupled_done rfl
  | ok _ =>
    apply (coupled_scratch hR _).bind
    rintro found found' hfound
    cases hfound with
    | error fault => exact coupled_done rfl
    | @ok p p' hp =>
      obtain ⟨hpath, k, hk, hscratched⟩ := hp
      obtain rfl : p' = p := hpath
      rw [hscratched]
      have hremove : ∀ e : Error, Coupled R Eq
          (request (.remove (parent / scratchName k)) >>= fun _ => done (Except.error e))
          (request (.remove (parent / scratchName k)) >>= fun _ =>
            done (Except.error e : Except Error Unit)) :=
        fun e => (coupled_remove hR _).bind fun _ _ _ => coupled_done rfl
      -- What is renamed is what was filled in, so from here both requests are seen together.
      intro th w v w' v' a b h hs hs'
      obtain ⟨m, filled, w₁, hfill, -, hs⟩ := hs.of_request_bind
      obtain ⟨m', filled', v₁, hfill', -, hs'⟩ := hs'.of_request_bind
      have hfilled := twins_fill hR (h.setNow m m') hk (hscratch k) th parent
      rw [hfill, hfill'] at hfilled
      obtain ⟨hsame, h₁⟩ := hfilled
      replace h₁ : Twins R w₁ v₁ := h₁
      obtain rfl : filled = filled' := hsame
      cases filled with
      | error fault => exact hremove _ _ _ _ _ _ _ _ h₁ hs hs'
      | ok _ =>
        obtain ⟨m₁, renamed, w₂, hrename, -, hs⟩ := hs.of_request_bind
        obtain ⟨m₁', renamed', v₂, hrename', -, hs'⟩ := hs'.of_request_bind
        have hrenamed := twins_rename hR (h₁.setNow m₁ m₁') hk hn th parent dir (by
          intro c c' hc hc'
          have hfile := get?_of_fill hk hfill
          have hfile' := get?_of_fill hk hfill'
          rw [h₁.home] at hfile'
          cases hfile.symm.trans hc
          cases hfile'.symm.trans hc'
          exact htext)
        rw [hrename, hrename'] at hrenamed
        obtain ⟨hsame, h₂⟩ := hrenamed
        obtain rfl : renamed = renamed' := hsame
        cases renamed with
        | error fault => exact hremove _ _ _ _ _ _ _ _ h₂ hs hs'
        | ok _ => exact coupled_done rfl _ _ _ _ _ _ _ h₂ hs hs'

end Files

end Script

end LintDigest
