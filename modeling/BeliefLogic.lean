import BeliefLogic.Main
import BeliefLogic.Proofs.Database.Origins
import BeliefLogic.Proofs.Database.Saved
import BeliefLogic.Proofs.Examples.Reading
import BeliefLogic.Proofs.Examples.Shuffled
import BeliefLogic.Proofs.Formula.Handles
import BeliefLogic.Proofs.Formula.Queries
import BeliefLogic.Proofs.Learning.Course
import BeliefLogic.Proofs.Lexicon
import BeliefLogic.Proofs.Matrix.Distribution
import BeliefLogic.Proofs.Matrix.Independence
import BeliefLogic.Proofs.Matrix.Windows
import BeliefLogic.Proofs.Plan.Weighting
import BeliefLogic.Proofs.Program.Inspected
import BeliefLogic.Proofs.Program.Session
import BeliefLogic.Proofs.Rule.RoundTrip
import BeliefLogic.Proofs.Rule.Spelling
import BeliefLogic.Proofs.Sketch
import BeliefLogic.Workbench.Commands
