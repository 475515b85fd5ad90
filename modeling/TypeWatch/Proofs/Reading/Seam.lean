import TypeWatch.Proofs.Reading.LockstepExpr
import TypeWatch.Proofs.Reading.Words

/-! # Words that stand elsewhere

What is read of an expression from some words depends on the words alone, up to the border that follows them: it is
read from the same words at any place where the same or another border follows (`expr_elsewhere`). -/
namespace TypeWatch.Reading
set_option autoImplicit false

open Layout (depthAfter)

/-! ## Brackets and yields -/

/-- The number of open brackets after some tokens. -/
def depthOver (depth : Nat) (kinds : List TokenKind) : Nat := kinds.foldl depthAfter depth

@[simp] theorem depthOver_nil (depth : Nat) : depthOver depth [] = depth := rfl

@[simp] theorem depthOver_cons (depth : Nat) (k : TokenKind) (ks : List TokenKind) :
    depthOver depth (k :: ks) = depthOver (depthAfter depth k) ks := rfl

/-- Whether no bracket is closed that was not opened after some tokens. -/
def Enclosed (depth : Nat) (kinds : List TokenKind) : Prop :=
  ∀ pre o post, kinds = pre ++ .op o :: post → o.closes = true → 0 < depthOver depth pre

namespace Enclosed

variable {depth : Nat} {kinds : List TokenKind}

theorem pos {o : Operator} (h : Enclosed depth (.op o :: kinds)) (ho : o.closes = true) : 0 < depth :=
  h [] o kinds rfl ho

theorem tail {k : TokenKind} (h : Enclosed depth (k :: kinds)) : Enclosed (depthAfter depth k) kinds := by
  intro pre o post hkinds ho
  exact h (k :: pre) o post (by rw [hkinds, List.cons_append]) ho

end Enclosed

/-- Whether something is yielded where no bracket is open. A comma that followed would go on with it. -/
def yieldsOpenly : Nat → List TokenKind → Bool
  | _, [] => false
  | depth, k :: ks => decide (depth = 0 ∧ k = .word .kwYield) || yieldsOpenly (depthAfter depth k) ks

/-! ## Seams -/

/-- Two borders that may follow the same tokens, at the end of which some brackets are open, and the places to which
the places of the tokens go. -/
structure Seam where
  motion : Motion
  plain : motion.Plain
  border : Token
  behind : List Token
  border' : Token
  behind' : List Token
  depth : Nat
  start : border'.span.start = motion.start border.span.start
  meets : Meets (· = border'.kind) depth border.kind border'.kind

namespace Seam

/-- The places before some tokens of the one stream, and before the same tokens of the other one. -/
structure Before (S : Seam) (ts : List Token) (depth : Nat) (c d : Cursor) : Prop where
  ahead : c.rest = ts ++ S.border :: S.behind
  ahead' : d.rest = ts.map (Token.moved S.motion) ++ S.border' :: S.behind'
  noLayout : ∀ t ∈ ts, t.kind.isLayout = false
  closes : depthOver depth (ts.map Token.kind) = S.depth
  safe : S.border'.kind = .op .comma → yieldsOpenly depth (ts.map Token.kind) = false
  lastEnd : d.lastEnd = S.motion.stop c.lastEnd

variable {S : Seam} {ts : List Token} {depth : Nat} {c d : Cursor}

theorem Before.next (h : S.Before ts depth c d) : NextAt S.motion (· = S.border'.kind)
    (fun depth c d => ∃ ts, S.Before ts depth c d) depth c d := by
  cases ts with
  | nil =>
    obtain ⟨_, hc⟩ := next?_eq_some h.ahead
    obtain ⟨_, hd⟩ := next?_eq_some h.ahead'
    obtain rfl : depth = S.depth := h.closes
    exact .border S.meets S.start hc hd
  | cons t ts =>
    obtain ⟨_, hc⟩ := next?_eq_some h.ahead
    obtain ⟨_, hd⟩ := next?_eq_some h.ahead'
    have hno := h.noLayout t List.mem_cons_self
    refine .token hno ?_ (S.plain.joins _ _ _ _) hc hd ⟨ts, rfl, rfl,
      fun u hu => h.noLayout u (List.mem_cons_of_mem t hu), h.closes, fun hcomma => ?_, ?_⟩
    · intro hyield
      refine (Nat.eq_zero_or_pos depth).symm.imp_right fun hzero hcomma => ?_
      have hsafe := h.safe hcomma.symm
      simp [yieldsOpenly, hyield, hzero] at hsafe
    · exact (Bool.or_eq_false_iff.mp (h.safe hcomma)).2
    · simp only [Cursor.past, Token.moved, hno, Bool.false_eq_true, if_false, Span.moved]

/-- Streams with the same tokens up to a seam are in lockstep. -/
def lockstep (S : Seam) : Lockstep where
  motion := S.motion
  others := (· = S.border'.kind)
  At depth c d := ∃ ts, S.Before ts depth c d
  lastEnd := fun h => h.elim fun _ hts => hts.lastEnd
  next := fun h => h.elim fun _ hts => hts.next

end Seam

/-! ## Places that go elsewhere -/

/-- Places that are distinct may go anywhere. -/
theorem exists_map_eq {ps : List Position} (h : ps.Nodup) (qs : List Position) (hlength : ps.length = qs.length) :
    ∃ f : Position → Position, ps.map f = qs := by
  induction ps generalizing qs with
  | nil => exact ⟨id, (List.length_eq_zero_iff.mp hlength.symm).symm⟩
  | cons p ps ih =>
    cases qs with
    | nil => cases hlength
    | cons q qs =>
      rw [List.nodup_cons] at h
      obtain ⟨f, rfl⟩ := ih h.2 qs (Nat.succ.inj hlength)
      refine ⟨fun r => if r = p then q else f r, ?_⟩
      rw [List.map_cons, if_pos rfl]
      refine congrArg (q :: ·) (List.map_congr_left fun r hr => if_neg ?_)
      rintro rfl
      exact h.1 hr

theorem nodup_of_lt {ps : List Position} (h : ps.Pairwise (· < ·)) : ps.Nodup := by
  refine List.Pairwise.imp (fun {p q} (hlt : p < q) => ?_) h
  rintro rfl
  exact Position.lt_irrefl p hlt

/-- Tokens are what their words and their places are. -/
theorem map_moved_eq {μ : Motion} (hμ : μ.Plain) {ts us : List Token} (hwords : us.map Token.word = ts.map Token.word)
    (hstart : us.map (fun u => u.span.start) = ts.map fun t => μ.start t.span.start)
    (hstop : us.map (fun u => u.span.stop) = ts.map fun t => μ.stop t.span.stop) : us = ts.map (Token.moved μ) := by
  induction ts generalizing us with
  | nil => exact List.map_eq_nil_iff.mp hwords
  | cons t ts ih =>
    cases us with
    | nil => cases hwords
    | cons u us =>
      simp only [List.map_cons, List.cons.injEq] at hwords hstart hstop
      rw [List.map_cons, ih hwords.2 hstart.2 hstop.2, hμ.moved]
      obtain ⟨kind, text, start, stop⟩ := u
      obtain ⟨rfl, rfl⟩ := Prod.mk.inj hwords.1
      simp only [Span.moved, ← hstart.1, ← hstop.1]

section Words

variable {c d : Cursor} {ts us : List Token} {u : Token} {w : Word} {ws : List Word}

/-- Tokens that are no layout begin one after the other, and so does what follows them. -/
theorem starts_nodup (hc : c.Sound) (hrest : c.rest = ts ++ u :: us) (hno : ∀ t ∈ ts, t.kind.isLayout = false) :
    ((ts ++ [u]).map fun t => t.span.start).Nodup := by
  have hordered := hc.ordered
  rw [hrest, List.pairwise_append] at hordered
  have hlt {a b : Token} (ha : a ∈ ts) (hab : a.Precedes b) : a.span.start < b.span.start :=
    Position.lt_of_lt_of_le ((hc.proper a (hrest ▸ List.mem_append_left _ ha)).lt (hno a ha)) hab.1
  refine nodup_of_lt (List.pairwise_map.mpr (List.pairwise_append.mpr ⟨?_, List.pairwise_singleton _ _, ?_⟩))
  · exact hordered.1.imp_of_mem fun ha _ hab => hlt ha hab
  · intro a ha b hb
    obtain rfl := List.mem_singleton.mp hb
    exact hlt ha (hordered.2.2 a ha b List.mem_cons_self)

theorem stops_nodup (hc : c.Sound) (hrest : c.rest = ts ++ u :: us) (hno : ∀ t ∈ ts, t.kind.isLayout = false) :
    (c.lastEnd :: ts.map fun t => t.span.stop).Nodup := by
  have hordered := hc.ordered
  rw [hrest, List.pairwise_append] at hordered
  have hlt {a : Token} (ha : a ∈ ts) : a.span.start < a.span.stop :=
    (hc.proper a (hrest ▸ List.mem_append_left _ ha)).lt (hno a ha)
  refine nodup_of_lt (List.pairwise_cons.mpr ⟨?_, List.pairwise_map.mpr ?_⟩)
  · intro p hp
    obtain ⟨t, ht, rfl⟩ := List.mem_map.mp hp
    exact Position.lt_of_le_of_lt (hc.behind t (hrest ▸ List.mem_append_left _ ht)) (hlt ht)
  · exact hordered.1.imp_of_mem fun _ hb hab => Position.lt_of_le_of_lt hab.1 (hlt hb)

/-- Two streams with the same words up to a border are the same up to a seam. -/
theorem exists_seam (hc : c.Sound) (hrest : c.rest = ts ++ u :: us) (hno : ∀ t ∈ ts, t.kind.isLayout = false)
    (hmeets : Meets (· = w.1) (depthOver 0 (ts.map Token.kind)) u.kind w.1)
    (hsafe : w.1 = .op .comma → yieldsOpenly 0 (ts.map Token.kind) = false)
    (hd : d.words = ts.map Token.word ++ w :: ws) : ∃ S : Seam, S.Before ts 0 c d ∧ S.border = u ∧ S.behind = us ∧
      (S.border' :: S.behind').map Token.word = w :: ws ∧ S.depth = depthOver 0 (ts.map Token.kind) := by
  obtain ⟨ts', rest', hrest', hts', htail⟩ := List.map_eq_append_iff.mp hd
  obtain ⟨v, vs, rfl, hv, hvs⟩ := List.map_eq_cons_iff.mp htail
  have hkind : v.kind = w.1 := congrArg Prod.fst hv
  have hlength : ts'.length = ts.length := by simpa using congrArg List.length hts'
  obtain ⟨f, hf⟩ := exists_map_eq (starts_nodup hc hrest hno) ((ts' ++ [v]).map fun t => t.span.start)
    (by simp [hlength])
  obtain ⟨g, hg⟩ := exists_map_eq (stops_nodup hc hrest hno) (d.lastEnd :: ts'.map fun t => t.span.stop)
    (by simp [hlength])
  simp only [List.map_append, List.map_cons, List.map_nil, List.map_map] at hf
  obtain ⟨hstarts, hstart⟩ := List.append_inj hf (by simp [hlength])
  obtain ⟨hlast, hstops⟩ := List.cons.inj hg
  let μ : Motion := ⟨f, g, fun _ text => text⟩
  have hplain : μ.Plain := fun _ _ => rfl
  have hmap : ts' = ts.map (Token.moved μ) :=
    map_moved_eq hplain hts' hstarts.symm ((List.map_map.symm.trans hstops).symm)
  refine ⟨⟨μ, hplain, u, us, v, vs, _, (List.cons.inj hstart).1.symm, hkind ▸ hmeets⟩, ⟨hrest, ?_, hno, rfl, ?_,
    hlast.symm⟩, rfl, rfl, ?_, rfl⟩
  · rw [hrest', hmap]
  · exact fun hcomma => hsafe (hkind ▸ hcomma)
  · rw [List.map_cons, hv, hvs]

/-- What is read of an expression from words before a border is read from the same words before another one. -/
theorem expr_elsewhere (hc : c.Sound) (hrest : c.rest = ts ++ u :: us) (hno : ∀ t ∈ ts, t.kind.isLayout = false)
    (hmeets : Meets (· = w.1) (depthOver 0 (ts.map Token.kind)) u.kind w.1)
    (hsafe : w.1 = .op .comma → yieldsOpenly 0 (ts.map Token.kind) = false)
    (hd : d.words = ts.map Token.word ++ w :: ws) {level : Power} {a : Advanced Expr c} (ha : expr level c = .ok a) :
    ∃ ts', a.next.rest = ts' ++ u :: us ∧ (∀ t ∈ ts', t.kind.isLayout = false) ∧
      depthOver 0 (ts'.map Token.kind) = depthOver 0 (ts.map Token.kind) ∧
      (expr level d).Finds fun e e1 => e.bare = a.value.bare ∧ e1.words = ts'.map Token.word ++ w :: ws := by
  obtain ⟨S, hbefore, rfl, rfl, hwords, hdepth⟩ := exists_seam hc hrest hno hmeets hsafe hd
  obtain ⟨b, hb, hvalue, ts', hend⟩ := Lockstep.expr_matches (L := S.lockstep) level ⟨ts, hbefore⟩ a ha
  refine ⟨ts', hend.ahead, hend.noLayout, hend.closes.trans hdepth, b, hb, ?_, ?_⟩
  · rw [hvalue]
    exact Expr.bare_moved S.motion _ (S.plain.keeps _)
  · have hkeep : (ts'.map (Token.moved S.motion)).map Token.word = ts'.map Token.word := by
      rw [List.map_map]
      exact List.map_congr_left fun t _ => by rw [Function.comp_apply, S.plain.moved]; rfl
    rw [Cursor.words, hend.ahead', List.map_append, hkeep, hwords]

end Words

end TypeWatch.Reading
