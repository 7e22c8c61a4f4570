import StaticAssert.Proofs.Expr.Layout
import StaticAssert.Proofs.Expr.Moving
import StaticAssert.Proofs.Expr.Postorder
import StaticAssert.Proofs.Token.Cutting
import StaticAssert.Proofs.Token.Joining
import StaticAssert.Proofs.Token.Placing
import StaticAssert.Proofs.Token.Requests

/-!
# Expressions by themselves

The operand of an expression has the span from the first of its tokens to the last. The text
under it begins and ends between characters, and it is scanned into the same tokens, moved
to the beginning of a source. Nothing but places distinguishes the tree of these tokens from
that of the expression, so that evaluating the text comes to the same value, type and facts.
-/

set_option autoImplicit false

namespace StaticAssert

open scoped Stream'

namespace Tree

variable {e : Tree}

theorem alike_moved (f : Site → Site) (e : Tree) : (e.moved f).operand.Alike e.operand := by
  induction e with
  | literal n p => exact ⟨rfl, rfl, rfl⟩
  | unary op p x ih => exact (Folded.alike_unary op ih (f p).span p.span).operand
  | binary op p x y ihx ihy => exact (Folded.alike_binary op ihx ihy).operand

theorem isUnsigned_moved (f : Site → Site) (e : Tree) :
    (e.moved f).isUnsigned = e.isUnsigned := by
  rw [← operand_isUnsigned, ← operand_isUnsigned]
  exact congrArg Leaf.isUnsigned (alike_moved f e).type

theorem length_records_moved (f : Site → Site) (e : Tree) :
    (e.moved f).records.length = e.records.length := by
  induction e with
  | literal n p => rfl
  | unary op p x ih =>
    simp only [moved, records, List.length_append, length_overflow, ih, isUnsigned_moved,
      value_moved]
  | binary op p x y ihx ihy =>
    simp only [moved, records, List.length_append, length_overflow, ihx, ihy, isUnsigned_moved,
      value_moved]

theorem exists_ends (h : Token.InOrder e.tokens) :
    ∃ (t : Token) (ts : List Token), e.tokens = t :: ts ∧ t.span.start = e.span.start ∧
      (ts.getLast?.getD t).span.stop = e.span.stop := by
  obtain ⟨t, ts, ht, hstart⟩ := e.exists_head h
  obtain ⟨us, u, hu, hstop⟩ := e.exists_last h
  have hl := congrArg List.getLast? (ht.symm.trans hu)
  rw [List.getLast?_cons, List.getLast?_concat] at hl
  rw [← Option.some.inj hl] at hstop
  exact ⟨t, ts, ht, hstart, hstop⟩

end Tree

section

variable {text cut : String} {e : Tree} {position : Nat} {line : UInt32} {flags : ExprFlags}

/-- The text that the tokens of an expression are scanned from is that expression. -/
theorem exists_offers_alone (h : Scans position line (Byte.ofText cut) e.tokens)
    (hfits : (Byte.ofText cut).length ≤ Buffer.maxSize)
    (hg : e.InStratum 6) (hs : e.Shallow 0) (flags : ExprFlags) :
    ∃ f rest, flags.Offers (Scanner.ofText cut).stream (e.moved f) rest ∧
      rest.head.kind = .eof := by
  have ht : Scans 0 1 (Byte.ofText cut) (tokenize cut) := scans_ofBytes hfits
  -- Both derivations are moved to where they meet: the place of one and the line of the other.
  have hplace := ht.shift position 0
  have hline := h.shift 0 (1 - line)
  rw [Nat.zero_add, UInt32.add_zero] at hplace
  rw [Nat.add_zero, UInt32.add_comm, UInt32.sub_add_cancel] at hline
  have he : e.tokens.map (Token.shiftWrapping 0 (1 - line)) =
      (tokenize cut).map (Token.shiftWrapping position 0) :=
    hline.unique hplace
  let back (p : Site) : Site :=
    ⟨(.ofNat p.line + (1 - line) : UInt32).toNat,
      ⟨p.span.start - position, p.span.stop - position⟩⟩
  let next (p : Site) : Site := ⟨p.line, ⟨p.span.start - position, p.span.stop - position⟩⟩
  have hb : (e.moved back).tokens = tokenize cut := by
    have hid : ∀ t ∈ tokenize cut, (t.shiftWrapping position 0).moved next = t := by
      intro t hm
      obtain ⟨n, -, hn⟩ := ht.line_eq t hm
      have hl : t.line % 4294967296 = t.line := by
        rw [hn]
        exact Nat.mod_eq_of_lt (UInt32.toNat_lt _)
      simp [Token.shiftWrapping, Token.moved, Token.site, Site.token, next, hl]
    calc
      (e.moved back).tokens =
          (e.tokens.map (Token.shiftWrapping 0 (1 - line))).map (Token.moved next) := by
        rw [e.tokens_moved, List.map_map]
        rfl
      _ = ((tokenize cut).map (Token.shiftWrapping position 0)).map (Token.moved next) := by
        rw [he]
      _ = tokenize cut := by
        rw [List.map_map]
        exact (List.map_congr_left hid).trans (List.map_id' _)
  obtain ⟨t, hk, hu⟩ := (Scanner.ofText cut).exists_stream_eq
  refine ⟨back, Stream'.const t, ⟨hg.moved, hs.moved, ?_, ?_⟩, hk⟩
  · rw [hb]
    exact hu
  · show ExprFlags.ends _ t.kind = true
    rw [hk]
    rfl

theorem exists_evaluate_alone (h : Scans position line (Byte.ofText cut) e.tokens)
    (hfits : (Byte.ofText cut).length ≤ Buffer.maxSize)
    (hg : e.InStratum 6) (hs : e.Shallow 0) (flags : ExprFlags) {sink : Sink}
    (hn : e.records.length ≤ sink.free) :
    ∃ x parser, (Parser.ofText cut sink).evaluate flags = ⟨.ok x, parser⟩ ∧
      x.Alike e.operand ∧ parser.peek.1.kind = .eof := by
  obtain ⟨f, rest, he, heof⟩ := exists_offers_alone h hfits hg hs flags
  rw [← Lookahead.upcoming_ofScanner] at he
  obtain ⟨tokens, hr, hd⟩ := Parser.exists_describes_evaluate_of_offers he
  rw [← Tree.length_records_moved f] at hn
  refine ⟨_, _, hd.room sink hn, e.alike_moved f, ?_⟩
  rw [Parser.peek_fst, Parser.upcoming, hr, heof]

variable {s : Scanner} {rest : Stream' Token} {t : Token}

theorem Tree.inOrder_of_stream (hu : s.stream = e.tokens ++ₛ rest) : Token.InOrder e.tokens :=
  (hu ▸ Token.ordered_stream s).inOrder fun _ => kind_ne_eof

theorem isBoundary_of_mem_tokens (hb : s.cursor.buffer = .ofText text) (ht : t ∈ e.tokens)
    (hm : t ∈ s.stream) :
    Text.IsBoundary text t.span.start ∧ Text.IsBoundary text t.span.stop := by
  have hk := Tree.kind_ne_eof ht
  have hh : t.kind.isHighByte = false := by
    rcases Tree.kind_of_mem_tokens ht with ⟨n, hn⟩ | ⟨p, hp⟩
    · rw [hn]
      rfl
    · rw [hp]
      rfl
  obtain ⟨before, lexeme, after, hx, hs, hl⟩ :=
    Scanner.exists_lexeme_of_mem_stream (Scanner.inSource_of_mem_stream hm hk) hm
  have hc : t.kind ≠ .lexError .commentNotClosed := by
    rcases Tree.kind_of_mem_tokens ht with ⟨n, hn⟩ | ⟨p, hp⟩
    · rw [hn]
      nofun
    · rw [hp]
      nofun
  rw [hb] at hx
  rw [hs]
  exact ⟨hl.isBoundary_start hk hh hx, hl.isBoundary_stop hk hh hx (.inl hc)⟩

theorem Text.ofText_of_slice? {m n : Nat} (h : Text.slice? text ⟨m, n⟩ = some cut) :
    Byte.ofText cut = Span.slice ⟨m, n⟩ (Byte.ofText text) := by
  obtain ⟨before, after, rfl, rfl, rfl⟩ := Text.exists_of_slice? h
  rw [Byte.ofText_append, Byte.ofText_append, List.append_assoc, Span.slice_append]

theorem Tree.mem_stream (hu : s.stream = e.tokens ++ₛ rest) (ht : t ∈ e.tokens) :
    t ∈ s.stream := by
  rw [hu]
  exact Stream'.mem_append_stream_left rest ht

theorem exists_slice_of_stream (hb : s.cursor.buffer = .ofText text)
    (hu : s.stream = e.tokens ++ₛ rest) : ∃ cut, Text.slice? text e.span = some cut := by
  obtain ⟨t, ht, hstart⟩ := e.exists_start
  obtain ⟨u, hm, hstop⟩ := e.exists_stop
  apply Text.exists_slice?
  · rw [← hstart]
    exact (isBoundary_of_mem_tokens hb ht (Tree.mem_stream hu ht)).1
  · rw [← hstop]
    exact (isBoundary_of_mem_tokens hb hm (Tree.mem_stream hu hm)).2
  · exact Tree.start_le_stop (Tree.inOrder_of_stream hu)

theorem exists_scans_of_slice (hb : s.cursor.buffer = .ofText text)
    (hu : s.stream = e.tokens ++ₛ rest) (hcut : Text.slice? text e.span = some cut) :
    (Byte.ofText cut).length ≤ Buffer.maxSize ∧
      ∃ line, Scans e.span.start line (Byte.ofText cut) e.tokens := by
  obtain ⟨t, ts, ht, hstart, hstop⟩ := Tree.exists_ends (Tree.inOrder_of_stream hu)
  obtain ⟨more, hmore⟩ := Scanner.exists_tokens_eq hu fun t => Tree.kind_ne_eof
  have hscan := s.scans_tokens
  rw [hmore, ht] at hscan
  obtain ⟨gap, middle, after, hrest, hgap, hmiddle, hscan⟩ := hscan.exists_cut_around
  rw [hstart] at hgap
  rw [hstop] at hmiddle
  rw [← hgap, ← ht] at hscan
  have htm : t ∈ e.tokens := ht ▸ List.mem_cons_self
  have hi := Scanner.inSource_of_mem_stream (Tree.mem_stream hu htm) (Tree.kind_ne_eof htm)
  have hlength : (s.cursor.buffer.bytes.take s.position ++ gap).length = e.span.start := by
    rw [List.length_append, List.length_take_of_le hi, hgap]
  have hheld : (Buffer.ofText text).bytes =
      (s.cursor.buffer.bytes.take s.position ++ gap) ++ (middle ++ after) := by
    rw [List.append_assoc, ← hrest, ← hb]
    exact (List.take_append_drop _ _).symm
  obtain ⟨beyond, hbeyond⟩ := Buffer.isPrefix_ofText text
  have hbytes : Byte.ofText text =
      (s.cursor.buffer.bytes.take s.position ++ gap) ++ (middle ++ (after ++ beyond)) := by
    rw [← hbeyond, hheld]
    simp only [List.append_assoc]
  have hm : Byte.ofText cut = middle := by
    rw [Text.ofText_of_slice? hcut, hmiddle, ← hgap, ← hlength, hbytes, Span.slice_append]
  have hfits := (Buffer.ofText text).fits
  rw [hheld] at hfits
  simp only [List.length_append] at hfits
  rw [hm]
  exact ⟨by omega, _, hscan⟩

end

namespace Parser

/-- The span of the operand goes from the first token taken to the last, and the text under it
is evaluated by itself, to the same value, type and facts. -/
theorem evaluate_alone {text : String} {s : Scanner} {p : Parser} {flags : ExprFlags}
    {x : Operand} (hb : s.cursor.buffer = .ofText text) (hs : p.upcoming = s.stream)
    (h : (p.evaluate flags).result = .ok x) :
    (∃ w : List Token, p.upcoming = w ++ₛ (p.evaluate flags).parser.upcoming ∧
      (∀ t ∈ w, t.kind ≠ .eof) ∧
      w.head?.map (fun t => t.span.start) = some x.span.start ∧
      w.getLast?.map (fun t => t.span.stop) = some x.span.stop) ∧
    ∃ cut ds, Text.slice? text x.span = some cut ∧
      (p.evaluate flags).parser.sink = p.sink.append ds ∧
      ∀ (flags' : ExprFlags) (sink : Sink), ds.length ≤ sink.free →
        ∃ y parser, (ofText cut sink).evaluate flags' = ⟨.ok y, parser⟩ ∧
          y.value = x.value ∧ y.type = x.type ∧ y.facts = x.facts ∧
          parser.peek.1.kind = .eof := by
  obtain ⟨tokens, sink⟩ := p
  obtain ⟨e, rfl, he⟩ := offers_of_evaluate h
  have hu : s.stream = e.tokens ++ₛ (evaluate ⟨tokens, sink⟩ flags).parser.upcoming :=
    hs.symm.trans he.tokens
  rw [e.operand_span]
  constructor
  · obtain ⟨t, ts, ht, hstart, hstop⟩ := Tree.exists_ends (Tree.inOrder_of_stream hu)
    refine ⟨e.tokens, he.tokens, fun t => Tree.kind_ne_eof, ?_, ?_⟩
    · rw [ht, List.head?_cons, Option.map_some, hstart]
    · rw [ht, List.getLast?_cons, Option.map_some, hstop]
  · obtain ⟨cut, hcut⟩ := exists_slice_of_stream hb hu
    obtain ⟨hfits, line, hscan⟩ := exists_scans_of_slice hb hu hcut
    obtain ⟨-, -, -, hsink⟩ := evaluate_of_offers he h
    refine ⟨cut, e.records, hcut, hsink, fun flags' sink' hn => ?_⟩
    obtain ⟨y, parser, hy, ha, heof⟩ :=
      exists_evaluate_alone hscan hfits he.grammar he.shallow flags' hn
    exact ⟨y, parser, hy, ha.value, ha.type, ha.facts, heof⟩

/-- A comment before the expression is left out, and one on two lines inside is not. -/
theorem evaluate_alone_comment :
    let text := " /*\u00e9*/ -1 /*\u00e9\n*/ * 2u;"
    let cut := "-1 /*\u00e9\n*/ * 2u"
    ∃ x, ((ofText text (.empty 0)).evaluate {}).result = .ok x ∧
      Text.slice? text x.span = some cut ∧
      ∀ (flags : ExprFlags) (sink : Sink), ∃ y parser,
        (ofText cut sink).evaluate flags = ⟨.ok y, parser⟩ ∧ y.value = -2 := by
  intro text cut
  let x : Operand := ⟨.integer .g32 true, { immediate := true }, -2, ⟨8, 23⟩⟩
  have hx : ((ofText text (.empty 0)).evaluate {}).result = .ok x := by decide +kernel
  have hs : ((ofText text (.empty 0)).evaluate {}).parser.sink = Sink.append (.empty 0) [] := by
    decide +kernel
  have hcut : Text.slice? text x.span = some cut := by decide +kernel
  have hu : (ofText text (.empty 0)).upcoming = (Scanner.ofText text).stream :=
    Lookahead.upcoming_ofScanner _
  obtain ⟨-, cut', ds, hc, hd, he⟩ := evaluate_alone (s := .ofText text) rfl hu hx
  obtain rfl : cut = cut' := Option.some.inj (hcut.symm.trans hc)
  obtain rfl : ds = [] := Sink.append_inj (hd.symm.trans hs)
  refine ⟨x, hx, hcut, fun flags sink => ?_⟩
  obtain ⟨y, parser, hy, hv, -⟩ := he flags sink (Nat.zero_le _)
  exact ⟨y, parser, hy, hv⟩

end Parser
end StaticAssert
