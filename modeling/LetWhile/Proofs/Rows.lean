import LetWhile.Java.Pen
import LetWhile.Proofs.Steps

/-!
# What a pen writes

A pen walks over a tree and counts the open blocks on the way. All that comes out of it is a list of
rows, each with its level and its text, and possibly a gap behind them. `inscribe` writes such rows
in a loop, without a tree and without a count, and every work of a pen is one run of it, whatever
the writer: this is `Does`. Two things can be read off the rows then. With their spaces in front of
them they are the lines that `Java.program` and `Java.statements` collect, and their levels say
whether there is a row among them that is too long. How far the levels of a tree reach is a measure
of the tree.
-/

namespace LetWhile

/-! ## Writers -/

namespace Writer

/-- A writer without a limit that was given some bytes. -/
def full (bytes : List UInt8) : Writer := { sink := { written := bytes } }

/-- A writer with a limit that was given some bytes. -/
def cut (limit : Nat) (bytes : List UInt8) : Writer where
  sink := { limit := some limit, written := bytes.take limit }
  failure := if limit < bytes.length then some .diskFull else none

theorem write_full (bytes : List UInt8) (chunk : String) :
    (full bytes).write chunk = full (bytes ++ utf8Bytes chunk) := rfl

/-- **A write with a limit.** Where the limit falls on the end of what was given before, no write
has failed yet, and the next byte fails. -/
theorem write_cut (limit : Nat) (bytes : List UInt8) (chunk : String) :
    (cut limit bytes).write chunk = cut limit (bytes ++ utf8Bytes chunk) := by
  by_cases h : limit < bytes.length
  · -- a write has failed already
    have hsame : (bytes ++ utf8Bytes chunk).take limit = bytes.take limit :=
      List.take_append_of_le_length (Nat.le_of_lt h)
    have hlonger : limit < bytes.length + (utf8Bytes chunk).length := by omega
    simp [write, cut, h, hsame, hlonger]
  · have hfits : bytes.take limit = bytes := List.take_of_length_le (by omega)
    have hroom : limit - bytes.length < (utf8Bytes chunk).length ↔
        limit < bytes.length + (utf8Bytes chunk).length := by omega
    simp [write, cut, Sink.write, h, hfits, hroom, List.take_append]

/-- **How a text is cut into chunks makes no difference**, if a writer after each chunk is told by
the bytes that were given so far. -/
theorem writeAll_of_write {writer : List UInt8 → Writer}
    (h : ∀ bytes chunk, (writer bytes).write chunk = writer (bytes ++ utf8Bytes chunk))
    (bytes : List UInt8) (chunks : List String) :
    (writer bytes).writeAll chunks = writer (bytes ++ chunks.flatMap utf8Bytes) := by
  induction chunks generalizing bytes with
  | nil => simp [writeAll]
  | cons chunk chunks ih =>
      rw [writeAll, List.foldl_cons, h, ← writeAll, ih, List.flatMap_cons, List.append_assoc]

theorem writeAll_unlimited (chunks : List String) :
    writeAll { sink := {} } chunks = full (chunks.flatMap utf8Bytes) :=
  writeAll_of_write write_full [] chunks

theorem limited_eq_cut (limit : Nat) :
    ({ sink := { limit := some limit } } : Writer) = cut limit [] := by
  simp [cut]

theorem writeAll_limited (limit : Nat) (chunks : List String) :
    writeAll { sink := { limit := some limit } } chunks =
      cut limit (chunks.flatMap utf8Bytes) := by
  rw [limited_eq_cut]
  exact writeAll_of_write (write_cut limit) [] chunks

end Writer

namespace Java

/-! ## Rows -/

/-- A line before its spaces are built. -/
structure Row where
  level : Nat
  text : String
deriving DecidableEq, Repr

/-- The line of a row, where a level has `width` spaces. -/
def Row.line (width : Nat) (r : Row) : String := Java.line (r.level * width) r.text

/-- How a work ends behind its rows. -/
def ending : Option Gap → Except Panic Unit
  | none => .ok ()
  | some g => .error (.gap g)

/-- Writes rows and ends behind them. Where no error is kept, a row that is too long ends it
earlier. -/
def inscribe (width : Nat) (gap : Option Gap) : List Row → Writer → Except Panic Unit × Writer
  | [], w => (ending gap, w)
  | r :: rows, w =>
    if w.failure = none ∧ longestRow < r.level * width then (.error (.row (r.level * width)), w)
    else inscribe width gap rows (w.write (r.line width))

section Inscribe

variable {width : Nat} {gap : Option Gap}

theorem inscribe_append (rows rows' : List Row) (w : Writer) :
    inscribe width gap (rows ++ rows') w =
      match inscribe width none rows w with
      | (.ok (), w') => inscribe width gap rows' w'
      | (.error p, w') => (.error p, w') := by
  induction rows generalizing w with
  | nil => rfl
  | cons r rows ih =>
      rw [List.cons_append, inscribe, inscribe]
      split
      · rfl
      · exact ih _

/-- Behind an error nothing is written and nothing is built. -/
theorem inscribe_failed {w : Writer} {e : WriteError} (h : w.failure = some e) (rows : List Row) :
    inscribe width gap rows w = (ending gap, w) := by
  induction rows with
  | nil => rfl
  | cons r rows ih =>
      have hsame : w.write (r.line width) = w := by rw [Writer.write, h]
      rw [inscribe, if_neg (by simp [h]), hsame, ih]

theorem inscribe_gap_ne_ok (g : Gap) (rows : List Row) (w : Writer) :
    (inscribe width (some g) rows w).1 ≠ .ok () := by
  induction rows generalizing w with
  | nil => exact nofun
  | cons r rows ih =>
      rw [inscribe]
      split
      · exact nofun
      · exact ih _

/-- Where all rows can be built, all lines are written. -/
theorem inscribe_of_fits {rows : List Row} (h : ∀ r ∈ rows, r.level * width ≤ longestRow)
    (w : Writer) :
    inscribe width gap rows w = (ending gap, w.writeAll (rows.map (Row.line width))) := by
  induction rows generalizing w with
  | nil => rfl
  | cons r rows ih =>
      obtain ⟨hr, hrows⟩ := List.forall_mem_cons.mp h
      rw [inscribe, if_neg (by omega), ih hrows]
      rfl

end Inscribe

/-! ## Works -/

theorem bind_work {α β : Type} (work : Work α) (next : α → Work β) (pen : Pen) :
    (work >>= next) pen =
      match work pen with
      | (.ok a, pen') => next a pen'
      | (.error p, pen') => (.error p, pen') := by
  -- the two layers of the monad, the one with the outcomes first
  show ExceptT.bind work next pen = _
  unfold ExceptT.bind ExceptT.mk ExceptT.bindCont
  show StateT.bind work _ pen = _
  unfold StateT.bind
  show (match work pen with | (a, s') => _) = _
  rcases work pen with ⟨_ | a, pen'⟩ <;> rfl

/-- From this depth on and with every writer, a work writes rows and ends as they do. If it comes to
its end, it has come back to the depth. -/
def Does (work : Work Unit) (width depth : Nat) (gap : Option Gap) (rows : List Row) : Prop :=
  ∀ w : Writer, ∃ after,
    work { toWriter := w, width, depth } =
      ((inscribe width gap rows w).1,
        { toWriter := (inscribe width gap rows w).2, width, depth := after }) ∧
    ((inscribe width gap rows w).1 = .ok () → after = depth)

section Does

variable {work work' : Work Unit} {width depth : Nat} {gap : Option Gap} {rows rows' : List Row}

theorem does_nothing : Does (pure ()) width depth none [] :=
  fun _ => ⟨depth, rfl, fun _ => rfl⟩

theorem does_gap (g : Gap) : Does (throw (.gap g)) width depth (some g) [] :=
  fun _ => ⟨depth, rfl, fun _ => rfl⟩

theorem does_blank : Does putBlank width depth none [⟨0, ""⟩] := by
  intro w
  have hline : Row.line width ⟨0, ""⟩ = "\n" := by
    rw [Row.line, Nat.zero_mul]
    rfl
  have hrow : inscribe width none [⟨0, ""⟩] w = (.ok (), w.write "\n") := by
    rw [inscribe, if_neg (by simp), hline]
    rfl
  exact ⟨depth, by rw [hrow]; rfl, fun _ => rfl⟩

/-- A line that can be built is written, and nothing at all happens behind an error. -/
theorem putLine_eq (text : String) (pen : Pen) :
    putLine text pen =
      if pen.failure = none ∧ longestRow < pen.depth * pen.width then
        (.error (.row (pen.depth * pen.width)), pen)
      else
        (.ok (),
          { pen with toWriter := pen.toWriter.write (line (pen.depth * pen.width) text) }) := by
  have hline : putLine text pen =
      (if pen.failure.isNone then do
        let spaces ← row (pen.depth * pen.width)
        put (spaces ++ text ++ "\n")
      else pure () : Work Unit) pen := rfl
  rw [hline]
  cases hfailure : pen.failure with
  | some e =>
      have hsame : pen.toWriter.write (line (pen.depth * pen.width) text) = pen.toWriter := by
        rw [Writer.write, hfailure]
      rw [if_neg (by simp), if_neg (by simp), hsame]
      rfl
  | none =>
      rw [if_pos Option.isNone_none, row]
      by_cases hlong : longestRow < pen.depth * pen.width
      · rw [if_neg (by omega), if_pos ⟨rfl, hlong⟩]
        rfl
      · rw [if_pos (by omega), if_neg (by simp [hlong])]
        rfl

theorem does_line (text : String) : Does (putLine text) width depth none [⟨depth, text⟩] := by
  intro w
  refine ⟨depth, ?_, fun _ => rfl⟩
  rw [putLine_eq, inscribe]
  split
  · rfl
  · rfl

theorem Does.andThen (h : Does work width depth none rows)
    (h' : Does work' width depth gap rows') :
    Does (do work; work') width depth gap (rows ++ rows') := by
  intro w
  obtain ⟨after, hwork, hafter⟩ := h w
  rw [bind_work, hwork, inscribe_append]
  rcases hrows : inscribe width none rows w with ⟨_ | _, w'⟩
  · exact ⟨after, rfl, nofun⟩
  · -- the second work starts at the depth that the first one came back to
    rw [hrows] at hafter
    obtain rfl := hafter rfl
    exact h' w'

theorem Does.stopped {g : Gap} (h : Does work width depth (some g) rows) :
    Does (do work; work') width depth (some g) rows := by
  intro w
  obtain ⟨after, hwork, hafter⟩ := h w
  have hends : (inscribe width (some g) rows w).1 ≠ .ok () := inscribe_gap_ne_ok g rows w
  rw [bind_work, hwork]
  rcases hrows : inscribe width (some g) rows w with ⟨_ | _, w'⟩
  · exact ⟨after, rfl, nofun⟩
  · rw [hrows] at hends
    exact absurd rfl hends

/-- A work inside of a block comes back out of it. -/
theorem Does.inBlock (h : Does work width (depth + 1) gap rows) :
    Does (inBlock work) width depth gap rows := by
  intro w
  obtain ⟨after, hwork, hafter⟩ := h w
  have hblock : Java.inBlock work { toWriter := w, width, depth } =
      (work >>= fun _ => closeBlock) { toWriter := w, width, depth := depth + 1 } := rfl
  rw [hblock, bind_work, hwork]
  rcases hrows : inscribe width gap rows w with ⟨_ | _, w'⟩
  · exact ⟨after, rfl, nofun⟩
  · rw [hrows] at hafter
    obtain rfl := hafter rfl
    exact ⟨depth, rfl, fun _ => rfl⟩

end Does

/-! ## Levels -/

mutual

/-- The number of levels that a statement takes. -/
def stmtLevels : Typed.Stmt → Nat
  | .missing => 0
  | .expr _ _ => 1
  | .declare _ _ _ _ => 1
  | .assign _ _ _ => 1
  | .branch _ yes no _ => 1 + max (stmtsLevels yes) (stmtsLevels no)
  | .loop _ body _ => 1 + stmtsLevels body

/-- The number of levels that statements take. -/
def stmtsLevels : List Typed.Stmt → Nat
  | [] => 0
  | s :: ss => max (stmtLevels s) (stmtsLevels ss)

end

/-- One behind the last of so many levels from a depth on. Without any level this is zero. -/
def reach (depth levels : Nat) : Nat := if levels = 0 then 0 else depth + levels

theorem reach_max (depth levels levels' : Nat) :
    max (reach depth levels) (reach depth levels') = reach depth (max levels levels') := by
  grind [reach]

/-- A line and a block behind it take one level more than the block. -/
theorem max_reach (depth levels : Nat) :
    max (depth + 1) (reach (depth + 1) levels) = reach depth (1 + levels) := by
  grind [reach]

theorem loop_top (depth : Nat) (body : List Typed.Stmt) :
    max (depth + 1) (max (reach (depth + 1) (stmtsLevels body)) (depth + 1)) =
      reach depth (1 + stmtsLevels body) := by
  rw [← max_reach]
  omega

theorem branch_top (depth : Nat) (yes no : List Typed.Stmt) :
    max (depth + 1) (max (reach (depth + 1) (stmtsLevels yes))
      (max (if no.isEmpty then 0 else max (depth + 1) (reach (depth + 1) (stmtsLevels no)))
        (depth + 1))) =
      reach depth (1 + max (stmtsLevels yes) (stmtsLevels no)) := by
  rw [← max_reach, ← reach_max]
  cases no with
  | nil =>
      have hnone : reach (depth + 1) (stmtsLevels []) = 0 := rfl
      rw [hnone, List.isEmpty_nil, if_pos rfl]
      omega
  | cons s ss =>
      rw [List.isEmpty_cons, if_neg Bool.false_ne_true]
      omega

/-- The levels of rows end in front of `top`, and one of the rows is on the last of them. -/
structure Tops (top : Nat) (rows : List Row) : Prop where
  below : ∀ r ∈ rows, r.level < top
  reached : 0 < top → ∃ r ∈ rows, r.level + 1 = top

theorem tops_nil : Tops 0 [] := ⟨nofun, nofun⟩

theorem tops_row (r : Row) : Tops (r.level + 1) [r] := by
  refine ⟨?_, fun _ => ⟨r, List.mem_cons_self, rfl⟩⟩
  intro r' hr'
  rw [List.mem_singleton.mp hr']
  exact Nat.lt_succ_self _

theorem Tops.append {top top' : Nat} {rows rows' : List Row} (h : Tops top rows)
    (h' : Tops top' rows') : Tops (max top top') (rows ++ rows') := by
  constructor
  · intro r hr
    rcases List.mem_append.mp hr with hr | hr
    · exact Nat.lt_of_lt_of_le (h.below r hr) (Nat.le_max_left ..)
    · exact Nat.lt_of_lt_of_le (h'.below r hr) (Nat.le_max_right ..)
  · intro hpos
    -- the higher of the two tops is reached by its own rows
    by_cases hle : top' ≤ top
    · obtain ⟨r, hr, heq⟩ := h.reached (by omega)
      exact ⟨r, List.mem_append_left _ hr, by omega⟩
    · obtain ⟨r, hr, heq⟩ := h'.reached (by omega)
      exact ⟨r, List.mem_append_right _ hr, by omega⟩

/-- All rows can be built if and only if one on the last level can. -/
theorem Tops.fits_iff {top : Nat} {rows : List Row} (h : Tops top rows) (width : Nat) :
    (∀ r ∈ rows, r.level * width ≤ longestRow) ↔ (top - 1) * width ≤ longestRow := by
  constructor
  · intro hall
    cases top with
    | zero => rw [Nat.zero_sub, Nat.zero_mul]; exact Nat.zero_le _
    | succ last =>
        obtain ⟨r, hr, heq⟩ := h.reached (Nat.succ_pos last)
        rw [Nat.succ_sub_one, ← Nat.succ.inj heq]
        exact hall r hr
  · intro hlast r hr
    have hlevel : r.level ≤ top - 1 := Nat.le_sub_one_of_lt (h.below r hr)
    exact Nat.le_trans (Nat.mul_le_mul_right width hlevel) hlast

/-! ## Trees -/

/-- **A work prints what a printer collects.** It writes rows, whose lines are those that the
printer has, and their levels end in front of `top`; or it ends at the gap that the printer met,
behind some rows. -/
inductive Prints (work : Work Unit) (width depth top : Nat) : Except Gap (List String) → Prop where
  | all {rows : List Row} : Does work width depth none rows → Tops top rows →
      Prints work width depth top (.ok (rows.map (Row.line width)))
  | upTo {g : Gap} {rows : List Row} : Does work width depth (some g) rows →
      Prints work width depth top (.error g)

section Prints

variable {work work' : Work Unit} {width depth top top' : Nat} {x y : Except Gap (List String)}

theorem prints_line (width depth : Nat) (text : String) :
    Prints (putLine text) width depth (depth + 1) (.ok [line (depth * width) text]) :=
  .all (does_line text) (tops_row ⟨depth, text⟩)

theorem prints_blank : Prints putBlank width depth 1 (.ok ["\n"]) := by
  have h : Prints putBlank width depth 1 (.ok [Row.line width ⟨0, ""⟩]) :=
    .all does_blank (tops_row ⟨0, ""⟩)
  rw [Row.line, Nat.zero_mul] at h
  exact h

theorem prints_nothing : Prints (pure ()) width depth 0 (.ok []) :=
  .all does_nothing tops_nil

theorem prints_gap (g : Gap) : Prints (throw (.gap g)) width depth top (.error g) :=
  .upTo (does_gap g)

/-- One work after the other. -/
theorem Prints.andThen (h : Prints work width depth top x) (h' : Prints work' width depth top' y) :
    Prints (do work; work') width depth (max top top') (do return (← x) ++ (← y)) := by
  cases h with
  | upTo h => exact .upTo h.stopped
  | all h htop =>
      cases h' with
      | upTo h' => exact .upTo (h.andThen h')
      | all h' htop' =>
          have hall := Prints.all (h.andThen h') (htop.append htop')
          rw [List.map_append] at hall
          exact hall

theorem Prints.inBlock (h : Prints work width (depth + 1) top x) :
    Prints (inBlock work) width depth top x := by
  cases h with
  | upTo h => exact .upTo h.inBlock
  | all h htop => exact .all h.inBlock htop

/-- A work that needs the text of an expression first. -/
theorem Prints.afterText {e : Typed.Expr} {next : String → Work Unit}
    {lines : String → Except Gap (List String)}
    (h : ∀ text, Prints (next text) width depth top (lines text)) :
    Prints (do next (← textOf e)) width depth top (expr e >>= lines) := by
  unfold textOf
  cases expr e with
  | error g => exact prints_gap g
  | ok text => exact h text

theorem Prints.ofTop (h : Prints work width depth top x) (htop : top = top') :
    Prints work width depth top' x := htop ▸ h

end Prints

mutual

/-- **The pen writes the lines of a statement.** -/
theorem prints_stmt (width depth : Nat) (s : Typed.Stmt) :
    Prints (putStmt s) width depth (reach depth (stmtLevels s)) (stmt width (depth * width) s) := by
  match s with
  | .missing => exact prints_gap .statement
  | .expr value _ => exact Prints.afterText fun _ => prints_line width depth _
  | .declare name ty none _ => exact prints_line width depth _
  | .declare name ty (some init) _ => exact Prints.afterText fun _ => prints_line width depth _
  | .assign name value _ => exact Prints.afterText fun _ => prints_line width depth _
  | .branch cond yes no _ =>
      rw [putStmt, stmt, ← Nat.succ_mul]
      refine Prints.afterText fun text => ?_
      have hyes := (prints_stmts width (depth + 1) yes).inBlock
      have hno := prints_else width depth no
      have hall := (prints_line width depth ("if (" ++ text ++ ") \x7b")).andThen
        (hyes.andThen (hno.andThen (prints_line width depth "\x7d")))
      have htop := hall.ofTop (branch_top depth yes no)
      -- the printer joins the same lines in another order, and meets the same gap first
      cases hlines : stmts width ((depth + 1) * width) yes with
      | error g => rw [hlines] at htop; exact htop
      | ok lines =>
        cases hlines' : elseBlock width (depth * width) no with
        | error g => rw [hlines, hlines'] at htop; exact htop
        | ok lines' =>
            rw [hlines, hlines'] at htop
            simp only [ok_bind, pure_eq_ok, List.cons_append, List.nil_append,
              List.append_assoc] at htop ⊢
            exact htop
  | .loop cond body _ =>
      rw [putStmt, stmt, ← Nat.succ_mul]
      refine Prints.afterText fun text => ?_
      have hbody := (prints_stmts width (depth + 1) body).inBlock
      have hall := (prints_line width depth ("while (" ++ text ++ ") \x7b")).andThen
        (hbody.andThen (prints_line width depth "\x7d"))
      have htop := hall.ofTop (loop_top depth body)
      cases hlines : stmts width ((depth + 1) * width) body with
      | error g => rw [hlines] at htop; exact htop
      | ok lines => rw [hlines] at htop; exact htop

theorem prints_stmts (width depth : Nat) (ss : List Typed.Stmt) :
    Prints (putStmts ss) width depth (reach depth (stmtsLevels ss))
      (stmts width (depth * width) ss) := by
  match ss with
  | [] => exact prints_nothing
  | s :: ss =>
      exact ((prints_stmt width depth s).andThen (prints_stmts width depth ss)).ofTop
        (reach_max ..)

theorem prints_else (width depth : Nat) (ss : List Typed.Stmt) :
    Prints (putElse ss) width depth
      (if ss.isEmpty then 0 else max (depth + 1) (reach (depth + 1) (stmtsLevels ss)))
      (elseBlock width (depth * width) ss) := by
  match ss with
  | [] => exact prints_nothing
  | s :: ss =>
      rw [putElse, elseBlock, ← Nat.succ_mul]
      have hblock := ((prints_stmt width (depth + 1) s).andThen
        (prints_stmts width (depth + 1) ss)).inBlock
      have hall := (prints_line width depth "\x7d else \x7b").andThen hblock
      have htop : Prints _ width depth
          (max (depth + 1) (reach (depth + 1) (stmtsLevels (s :: ss)))) _ :=
        hall.ofTop (by rw [stmtsLevels, ← reach_max])
      cases hfirst : stmt width ((depth + 1) * width) s with
      | error g => rw [hfirst] at htop; exact htop
      | ok first =>
        cases hrest : stmts width ((depth + 1) * width) ss with
        | error g => rw [hfirst, hrest] at htop; exact htop
        | ok rest => rw [hfirst, hrest] at htop; exact htop

end

theorem prints_program (o : Options) (p : Typed.Program) :
    Prints (putClass o.name p) o.width 0 (2 + stmtsLevels p) (program o p) := by
  have hbody := (prints_stmts o.width 2 p).inBlock
  have hmain := ((prints_line o.width 1 "public static void main(String[] args) \x7b").andThen
    (hbody.andThen (prints_line o.width 1 "\x7d"))).inBlock
  have hall := (prints_line o.width 0 ("public class " ++ o.name ++ " \x7b")).andThen
    (prints_blank.andThen (hmain.andThen (prints_blank.andThen
      (prints_line o.width 0 "\x7d"))))
  have htop : Prints _ o.width 0 (2 + stmtsLevels p) _ := hall.ofTop (by grind [reach])
  unfold putClass program
  cases hlines : stmts o.width (2 * o.width) p with
  | error g => rw [hlines] at htop; exact htop
  | ok lines =>
      rw [hlines, Nat.zero_mul, Nat.one_mul] at htop
      simp only [ok_bind, pure_eq_ok, List.cons_append, List.nil_append,
        List.append_assoc] at htop ⊢
      exact htop

theorem prints_statements (o : Options) (ss : List Typed.Stmt) :
    Prints (putStmts ss) o.width 0 (stmtsLevels ss) (statements o ss) := by
  have h : Prints _ o.width 0 (stmtsLevels ss) _ :=
    (prints_stmts o.width 0 ss).ofTop (by grind [reach])
  rw [Nat.zero_mul] at h
  exact h

/-! ## Whole works -/

/-- A level of so many blocks has a row that can be built. -/
def Options.hasRoom (o : Options) (levels : Nat) : Prop := levels * o.width ≤ longestRow

instance (o : Options) (levels : Nat) : Decidable (o.hasRoom levels) :=
  inferInstanceAs (Decidable (_ ≤ _))

theorem inscribe_error_row {width : Nat} {rows : List Row} {w : Writer} {p : Panic}
    (h : (inscribe width none rows w).1 = .error p) :
    ∃ spaces, longestRow < spaces ∧ p = .row spaces := by
  induction rows generalizing w with
  | nil => cases h
  | cons r rows ih =>
      rw [inscribe] at h
      split at h
      · next hlong => cases h; exact ⟨_, hlong.2, rfl⟩
      · exact ih h

/-- Without a limit, nothing keeps a row that is too long from being built. -/
theorem inscribe_full_long {width : Nat} {rows : List Row}
    (h : ¬ ∀ r ∈ rows, r.level * width ≤ longestRow) (bytes : List UInt8) :
    ∃ p, (inscribe width none rows (.full bytes)).1 = .error p := by
  induction rows generalizing bytes with
  | nil => exact absurd (fun _ => nofun) h
  | cons r rows ih =>
      rw [inscribe]
      split
      · exact ⟨_, rfl⟩
      · next hr =>
        have hfits : r.level * width ≤ longestRow := Nat.not_lt.mp fun hlong => hr ⟨rfl, hlong⟩
        rw [Writer.write_full]
        exact ih (fun hrows => h (List.forall_mem_cons.mpr ⟨hfits, hrows⟩)) _

/-- Writes rows into a sink, and returns the error that was kept. -/
def pour (width : Nat) (gap : Option Gap) (rows : List Row) (sink : Sink) :
    Except Panic (Option WriteError) × Sink :=
  let (result, w) := inscribe width gap rows { sink }
  (result.map fun _ => w.failure, w.sink)

section Into

variable {work : Work Unit} {o : Options} {top : Nat} {lines : List String}

theorem into_of_long (h : longestRow < o.width) (sink : Sink) :
    work.into o sink = (.error (.row o.width), sink) := by
  rw [Work.into, row, if_neg (by omega)]

theorem Does.into_eq {gap : Option Gap} {rows : List Row} (h : Does work o.width 0 gap rows)
    (hwidth : o.width ≤ longestRow) (sink : Sink) :
    work.into o sink = pour o.width gap rows sink := by
  obtain ⟨after, hwork, -⟩ := h { sink }
  rw [Work.into, row, if_pos hwidth]
  dsimp only
  rw [hwork, pour]
  rcases inscribe o.width gap rows { sink } with ⟨_ | _, w⟩ <;> rfl

theorem hasRoom_iff : o.hasRoom (max 1 (top - 1)) ↔
    o.width ≤ longestRow ∧ (top - 1) * o.width ≤ longestRow := by
  rw [Options.hasRoom, ← Nat.mul_max_mul_right, Nat.one_mul, Nat.max_le]

/-- **With room for its last level, a work writes all lines**, into every sink. -/
theorem Prints.into_of_room (h : Prints work o.width 0 top (.ok lines))
    (hroom : o.hasRoom (max 1 (top - 1))) (sink : Sink) :
    work.into o sink = (.ok (({ sink } : Writer).writeAll lines).failure,
      (({ sink } : Writer).writeAll lines).sink) := by
  obtain ⟨hwidth, hlast⟩ := hasRoom_iff.mp hroom
  cases h with
  | all h htop =>
      rw [h.into_eq hwidth, pour, inscribe_of_fits ((htop.fits_iff o.width).mpr hlast)]
      rfl

/-- **Without room for its last level, a work breaks off**, if nothing keeps it from getting
there. -/
theorem Prints.into_of_no_room (h : Prints work o.width 0 top (.ok lines))
    (hroom : ¬ o.hasRoom (max 1 (top - 1))) :
    ∃ p, (work.into o {}).1 = .error p := by
  rw [hasRoom_iff] at hroom
  by_cases hwidth : o.width ≤ longestRow
  · cases h with
    | all h htop =>
        have hlong := mt (htop.fits_iff o.width).mp fun hlast => hroom ⟨hwidth, hlast⟩
        obtain ⟨p, hp⟩ := inscribe_full_long hlong []
        rw [h.into_eq hwidth, pour]
        rcases hrun : inscribe o.width none _ { sink := {} } with ⟨q | _, w⟩
        · exact ⟨q, rfl⟩
        · rw [Writer.full, hrun] at hp
          cases hp
  · exact ⟨_, by rw [into_of_long (by omega)]⟩

/-- Where there is no gap, a work breaks off at a row that is too long and at nothing else. -/
theorem Prints.row_of_into_error (h : Prints work o.width 0 top (.ok lines)) {sink : Sink}
    {p : Panic} (hp : (work.into o sink).1 = .error p) :
    ∃ spaces, longestRow < spaces ∧ p = .row spaces := by
  by_cases hwidth : o.width ≤ longestRow
  · cases h with
    | all h htop =>
        rw [h.into_eq hwidth, pour] at hp
        rcases hrun : inscribe o.width none _ { sink } with ⟨q | _, w⟩
        · rw [hrun] at hp
          cases hp
          exact inscribe_error_row (congrArg Prod.fst hrun)
        · rw [hrun] at hp
          cases hp
  · rw [into_of_long (by omega)] at hp
    cases hp
    exact ⟨_, by omega, rfl⟩

end Into

/-- Two of the levels of a program are those of the class and of the main method. -/
theorem hasRoom_program {o : Options} {p : Typed.Program} :
    o.hasRoom (max 1 (2 + stmtsLevels p - 1)) ↔ o.hasRoom (1 + stmtsLevels p) := by
  have hlast : max 1 (2 + stmtsLevels p - 1) = 1 + stmtsLevels p := by omega
  rw [hlast]

/-- With room for the levels of a program, the pen writes its lines. -/
theorem generate_of_room {o : Options} {p : Typed.Program} {lines : List String}
    (h : program o p = .ok lines) (hroom : o.hasRoom (1 + stmtsLevels p)) (sink : Sink) :
    generate o p sink =
      (.ok (Writer.writeAll { sink } lines).failure, (Writer.writeAll { sink } lines).sink) := by
  have hprints := prints_program o p
  rw [h] at hprints
  exact hprints.into_of_room (hasRoom_program.mpr hroom) sink

/-- With room for their levels, the pen writes the lines of statements. -/
theorem generateStatements_of_room {o : Options} {ss : List Typed.Stmt} {lines : List String}
    (h : statements o ss = .ok lines) (hroom : o.hasRoom (max 1 (stmtsLevels ss - 1)))
    (sink : Sink) :
    generateStatements o ss sink =
      (.ok (Writer.writeAll { sink } lines).failure, (Writer.writeAll { sink } lines).sink) := by
  have hprints := prints_statements o ss
  rw [h] at hprints
  exact hprints.into_of_room hroom sink

end Java

end LetWhile
