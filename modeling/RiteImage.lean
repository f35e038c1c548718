import RiteImage.Main
import RiteImage.Proofs.Remainder
import RiteImage.Proofs.RoundTrip
import RiteImage.Proofs.BitErrors
import RiteImage.Proofs.ErrorDetection
import RiteImage.Proofs.Extension
import RiteImage.Proofs.Machine.Reader
import RiteImage.Proofs.Machine.Records
import RiteImage.Proofs.Machine.Sections
import RiteImage.Proofs.Machine.Image
import RiteImage.Proofs.Narrowing
import RiteImage.Proofs.ImageLayout
import RiteImage.Proofs.RuleEffects
import RiteImage.Proofs.Overlooked
import RiteImage.Proofs.ImageWalk
import RiteImage.Proofs.Diagnosis
import RiteImage.Proofs.CutImage
import RiteImage.Proofs.Reread
import RiteImage.Proofs.SizeChain
import RiteImage.Proofs.LineScan
import RiteImage.Proofs.DeclaredSize
import RiteImage.Proofs.LineListing
import RiteImage.Proofs.ReportAgreement
import RiteImage.Proofs.DoubleErrors
import RiteImage.Proofs.Displacement
import RiteImage.Proofs.Rounds
import RiteImage.Proofs.ShortestText
import RiteImage.Proofs.TreeStack
import RiteImage.Proofs.Machine.Slice
import RiteImage.Proofs.HeaderVerdict
