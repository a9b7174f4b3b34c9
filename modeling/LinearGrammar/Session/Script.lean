import LinearGrammar.Session.World
import LinearGrammar.Text.Lines

/-!
# Scripts

A script is a file that is read while it runs, piece by piece, each piece at the place where the one
before it ended. A command of the script may write the script's own file. Then the lines of the piece
that was read already are still run, and what follows comes from the new contents, wherever a line of
theirs stands at that place. The script ends where a read brings nothing.

Nothing says that such a script comes to its end because it gets shorter, for a command may make the
file longer. It ends because every read that brings something moves the place on, and no file reaches
beyond the last place there is.
-/

namespace LinearGrammar

variable {φ : Type} [FileSystem φ]

/-- How many bytes one read of a script brings at most. -/
def pieceLength : Nat := 8 * 1024

/-- The place behind the last byte that a file can have. -/
def offsetLimit : Nat := Nat.pow 2 63 - 1

/-- What a read at some place of a script brings. -/
def FileSystem.readPiece (files : φ) (handle : Handle φ) (offset : Nat) :
    Except FileFault (List UInt8) :=
  if offset < offsetLimit then readAt files handle offset pieceLength else .ok []

theorem FileSystem.lt_offsetLimit_of_readPiece {files : φ} {handle : Handle φ} {offset : Nat}
    {b : UInt8} {bytes : List UInt8} (h : readPiece files handle offset = .ok (b :: bytes)) :
    offset < offsetLimit := by
  unfold readPiece at h
  split at h
  · assumption
  · cases h

namespace Session

open FileSystem (Handle readPiece lt_offsetLimit_of_readPiece)

/-- Runs a script from a place in its file on. `pending` is what was read and not run. A last line
without a line feed is run too, and then the file may have become longer. If the file cannot be read on,
the script ends at once, and nothing is waited for. -/
def runScriptFrom (handle : Handle φ) (offset : Nat) (pending : List UInt8) (s : Session)
    (w : World φ) : Progress φ × End :=
  match _hline : Text.firstByteLine? pending with
  | some (line, rest) =>
    match runLine false line s w with
    | (p, some ending) => (p, ending)
    | (p, none) =>
      let (q, ending) := runScriptFrom handle offset rest p.session p.world
      ({ q with lines := p.lines ++ q.lines }, ending)
  | none =>
    match _hpiece : readPiece w.files handle offset with
    | .error fault => (⟨[], s, w⟩, .cutOff fault)
    | .ok (b :: bytes) =>
      runScriptFrom handle (offset + (b :: bytes).length) (pending ++ b :: bytes) s w
    | .ok [] =>
      match pending with
      | [] => (s.settleIn w, .finished)
      | b :: bytes =>
        match runLine false (b :: bytes) s w with
        | (p, some ending) => (p, ending)
        | (p, none) =>
          let (q, ending) := runScriptFrom handle offset [] p.session p.world
          ({ q with lines := p.lines ++ q.lines }, ending)
termination_by (offsetLimit - offset, pending.length)
decreasing_by
  · exact Prod.Lex.right _ (Text.length_of_firstLine? _hline)
  · have := lt_offsetLimit_of_readPiece _hpiece
    exact Prod.Lex.left _ _ (by simp only [List.length_cons]; omega)
  · exact Prod.Lex.right _ (Nat.zero_lt_succ _)

def runScript (s : Session) (w : World φ) (handle : Handle φ) : Progress φ × End :=
  runScriptFrom handle 0 [] s w

end Session

end LinearGrammar
